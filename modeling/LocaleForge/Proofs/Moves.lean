import LocaleForge.Proofs.Calls
import LocaleForge.Proofs.Setting
import Mathlib.Logic.Relation

/-!
A build as a system that moves. A move opens a call to the bundler, takes the answer to one of the
open calls and writes its file, or writes another file. However many jobs are open at once, a run of
jobs that succeeds is a sequence of moves in which each job is answered once.
-/

namespace LocaleForge

open Build

/-- A call that the bundler has answered. -/
structure Answered where
  call : OpenCall
  reply : String
  /-- The tree when the answer came. -/
  tree : Disk

namespace Answered

def job (a : Answered) : Job :=
  a.call.job

end Answered

/-- How far a build is. -/
structure Course where
  /-- The calls that wait for the bundler. -/
  opened : List OpenCall
  /-- The answered calls in the order of the answers. -/
  answered : List Answered
  state : BuildState

def Event.reply? : Event → Option Reply
  | .reply r => some r
  | _ => none

/-- A move of a build whose jobs write to paths in `targets`, and which writes to paths in `others`
besides. -/
inductive Move (ctx : Context) (targets others : Path → Prop) : Course → Course → Prop where
  | notes {o a s} (e : Event) (h : e.reply? = none) :
    Move ctx targets others ⟨o, a, s⟩ ⟨o, a, { s with log := s.log ++ [e] }⟩
  | tells {o a s} (m : Console.Message) :
    Move ctx targets others ⟨o, a, s⟩ ⟨o, a, { s with console := s.console ++ [m] }⟩
  | opens {o a s t j c} (ht : targets j.target) (h : (ctx.openCall j).Gives s c t) :
    Move ctx targets others ⟨o, a, s⟩ ⟨o ++ [c], a, t⟩
  | answers {o o' a s t u c reply} (hr : (ctx.answer c.request).Gives s reply t)
    (hw : (ctx.write c.job.target (c.output ctx.settings reply)).Gives t () u) :
    Move ctx targets others ⟨o ++ c :: o', a, s⟩ ⟨o ++ o', a ++ [⟨c, reply, s.disk⟩], u⟩
  | writes {o a s t p text} (ht : others p) (h : (ctx.write p text).Gives s () t) :
    Move ctx targets others ⟨o, a, s⟩ ⟨o, a, t⟩
  | copies {o a s t p source} (ht : others p) (h : (ctx.copy source p).Gives s () t) :
    Move ctx targets others ⟨o, a, s⟩ ⟨o, a, t⟩

/-- Any number of moves. -/
abbrev Moves (ctx : Context) (targets others : Path → Prop) : Course → Course → Prop :=
  Relation.ReflTransGen (Move ctx targets others)

namespace Started

def call? : Started → Option OpenCall
  | opened c => some c
  | _ => none

/-- The path to which the job writes, unless its start has failed. -/
def target? : Started → Option Path
  | opened c => some c.job.target
  | ended target => some target
  | held _ => none

/-- The calls of a wave that wait for the bundler. -/
def calls (started : List Started) : List OpenCall :=
  started.filterMap call?

end Started

namespace Context

variable {ctx : Context} {targets others : Path → Prop} {s t : BuildState} {o : List OpenCall}
  {a : List Answered}

/-! ## Single jobs -/

theorem moves_of_closeCall (o' : List OpenCall) {c : OpenCall} {target : Path}
    (h : (ctx.closeCall c).Gives s target t) :
    target = c.job.target ∧ ∃ reply,
      Moves ctx targets others ⟨o ++ c :: o', a, s⟩ ⟨o ++ o', a ++ [⟨c, reply, s.disk⟩], t⟩ := by
  obtain ⟨htarget, reply, u, hr, hw⟩ := closeCall_gives h
  exact ⟨htarget, reply, .single (.answers hr hw)⟩

theorem moves_of_transpile {j : Job} {target : Path} (hj : targets j.target)
    (h : (ctx.transpile j).Gives s target t) :
    target = j.target ∧ ∃ answer, answer.job = j ∧ answer.tree = s.disk ∧
      Moves ctx targets others ⟨o, a, s⟩ ⟨o, a ++ [answer], t⟩ := by
  obtain ⟨c, u, hc, hclose⟩ := gives_bind_iff.1 h
  obtain ⟨-, -, hjob, -, -⟩ := openCall_gives hc
  obtain ⟨htarget, reply, hm⟩ := moves_of_closeCall [] hclose
  refine ⟨htarget.trans (by rw [hjob]), ⟨c, reply, u.disk⟩, hjob, disk_of_openCall hc,
    .head (.opens hj hc) ?_⟩
  rwa [List.append_nil] at hm

/-! ## Waves -/

theorem moves_of_tryStart (others : Path → Prop) {j : Job} {started : Started} (hj : targets j.target)
    (h : (ctx.tryStart j).Gives s started t) (hs : started.target? ≠ none) :
    started.target? = some j.target ∧ ∃ new,
      (new.map Answered.job ++ (Started.calls [started]).map (·.job)) = [j] ∧
      Moves ctx targets others ⟨o, a, s⟩ ⟨o ++ Started.calls [started], a ++ new, t⟩ := by
  rcases gives_tryCatch_iff.1 h with h | ⟨e, u, -, h⟩
  · obtain ⟨c, u, hc, h⟩ := gives_bind_iff.1 h
    obtain ⟨-, -, hjob, -, -⟩ := openCall_gives hc
    split at h
    · obtain ⟨target, v, hclose, h⟩ := gives_bind_iff.1 h
      obtain ⟨rfl, rfl⟩ := gives_pure_iff.1 h
      obtain ⟨htarget, reply, hm⟩ := moves_of_closeCall [] hclose
      refine ⟨by rw [Started.target?, htarget, hjob], [⟨c, reply, u.disk⟩], ?_,
        .head (.opens hj hc) hm⟩
      simp [Started.calls, Started.call?, Answered.job, hjob]
    · obtain ⟨rfl, rfl⟩ := gives_pure_iff.1 h
      refine ⟨by rw [Started.target?, hjob], [], ?_, ?_⟩
      · simp [Started.calls, Started.call?, hjob]
      · rw [List.append_nil]
        exact .single (.opens hj hc)
  · obtain ⟨rfl, -⟩ := gives_pure_iff.1 h
    exact absurd rfl hs

theorem startWave_inv {holds : Bool} {slots : Nat} {waiting : Bool} {j : Job} {js rest : List Job}
    {started : List Started}
    (h : (ctx.startWave holds (slots + 1) waiting (j :: js)).Gives s (started, rest) t) :
    ∃ x xs u slots' waiting', started = x :: xs ∧ (ctx.tryStart j).Gives s x u ∧
      (ctx.startWave holds slots' waiting' js).Gives u (xs, rest) t := by
  rw [startWave_cons] at h
  obtain ⟨x, u, hx, h⟩ := gives_bind_iff.1 h
  cases hnext : onward holds slots waiting x with
  | error stop =>
    rw [hnext] at h
    exact absurd h not_gives_throw
  | ok next =>
    rw [hnext] at h
    obtain ⟨⟨xs, rest'⟩, v, hxs, h⟩ := gives_bind_iff.1 h
    obtain ⟨he, rfl⟩ := gives_pure_iff.1 h
    cases he
    exact ⟨x, xs, u, next.1, next.2, rfl, hx, hxs⟩

theorem ne_nil_of_startWave {holds : Bool} {slots : Nat} {waiting : Bool} {j : Job} {js rest : List Job}
    {started : List Started}
    (h : (ctx.startWave holds (slots + 1) waiting (j :: js)).Gives s (started, rest) t) :
    started ≠ [] := by
  obtain ⟨x, xs, -, -, -, rfl, -⟩ := startWave_inv h
  exact List.cons_ne_nil x xs

theorem calls_cons (x : Started) (xs : List Started) :
    Started.calls (x :: xs) = Started.calls [x] ++ Started.calls xs := by
  rw [Started.calls, Started.calls, Started.calls, ← List.filterMap_append]
  rfl

/-- Where all starts of a wave succeed, its jobs are the first ones, and each of them waits for the
bundler or is answered. -/
theorem moves_of_startWave (others : Path → Prop) (o : List OpenCall) (a : List Answered) {holds : Bool}
    {slots : Nat} {waiting : Bool} {jobs rest : List Job} {started : List Started}
    (hj : ∀ j ∈ jobs, targets j.target)
    (h : (ctx.startWave holds slots waiting jobs).Gives s (started, rest) t)
    (hs : ∀ x ∈ started, x.target? ≠ none) :
    ∃ taken new, jobs = taken ++ rest ∧ started.map Started.target? = taken.map (some ·.target) ∧
      (new.map Answered.job ++ (Started.calls started).map (·.job)).Perm taken ∧
      Moves ctx targets others ⟨o, a, s⟩ ⟨o ++ Started.calls started, a ++ new, t⟩ := by
  induction jobs generalizing slots waiting started s o a with
  | nil =>
    rw [startWave_nil] at h
    obtain ⟨he, rfl⟩ := gives_pure_iff.1 h
    cases he
    exact ⟨[], [], rfl, rfl, .nil, by simpa [Started.calls] using .refl⟩
  | cons j js ih =>
    cases slots with
    | zero =>
      rw [startWave_zero] at h
      obtain ⟨he, rfl⟩ := gives_pure_iff.1 h
      cases he
      exact ⟨[], [], rfl, rfl, .nil, by simpa [Started.calls] using .refl⟩
    | succ n =>
      obtain ⟨x, xs, u, slots, waiting, rfl, hx, hxs⟩ := startWave_inv h
      obtain ⟨htarget, first, hfirst, hm⟩ := moves_of_tryStart (o := o) (a := a) others
        (hj j List.mem_cons_self) hx (hs x List.mem_cons_self)
      obtain ⟨taken, new, rfl, htargets, hperm, hm'⟩ := ih (o ++ Started.calls [x]) (a ++ first)
        (fun y hy => hj y (List.mem_cons_of_mem _ hy)) hxs fun y hy => hs y (List.mem_cons_of_mem _ hy)
      refine ⟨j :: taken, first ++ new, rfl, ?_, ?_, ?_⟩
      · rw [List.map_cons, List.map_cons, htarget, htargets]
      · -- The jobs that were answered at the start come before those that wait.
        rw [calls_cons, List.map_append, List.map_append]
        have swap : ((first.map Answered.job ++ new.map Answered.job) ++
            ((Started.calls [x]).map (·.job) ++ (Started.calls xs).map (·.job))).Perm
            ((first.map Answered.job ++ (Started.calls [x]).map (·.job)) ++
              (new.map Answered.job ++ (Started.calls xs).map (·.job))) := by
          rw [List.append_assoc, List.append_assoc]
          exact (List.perm_append_comm_assoc _ _ _).append_left _
        refine swap.trans ?_
        rw [hfirst]
        exact hperm.cons j
      · rw [calls_cons]
        rw [List.append_assoc, List.append_assoc] at hm'
        exact hm.trans hm'

theorem moves_of_mapM_endStarted {started : List Started} {ends : List Path}
    (h : (started.mapM ctx.endStarted).Gives s ends t) (ho : o.Perm (Started.calls started)) :
    started.map Started.target? = ends.map some ∧ ∃ new,
      (new.map Answered.job).Perm ((Started.calls started).map (·.job)) ∧
      Moves ctx targets others ⟨o, a, s⟩ ⟨[], a ++ new, t⟩ := by
  induction started generalizing s ends o a with
  | nil =>
    obtain ⟨rfl, rfl⟩ := gives_mapM_nil_iff.1 h
    rw [List.perm_nil.1 ho]
    exact ⟨rfl, [], .nil, by simpa using .refl⟩
  | cons x xs ih =>
    obtain ⟨target, u, rest, hx, hxs, rfl⟩ := gives_mapM_cons_iff.1 h
    cases x with
    | opened c =>
      -- The call is somewhere among the open ones.
      have hc : c ∈ o := ho.mem_iff.2 List.mem_cons_self
      obtain ⟨before, after, rfl⟩ := List.append_of_mem hc
      obtain ⟨htarget, reply, hm⟩ := moves_of_closeCall after hx
      obtain ⟨htargets, new, hperm, hm'⟩ := ih (a := a ++ [⟨c, reply, s.disk⟩]) hxs
        (List.perm_cons c |>.1 (List.perm_middle.symm.trans ho))
      refine ⟨by simp [htargets, Started.target?, htarget], ⟨c, reply, s.disk⟩ :: new,
        hperm.cons c.job, ?_⟩
      rw [List.append_assoc] at hm'
      exact hm.trans hm'
    | ended target' =>
      obtain ⟨rfl, rfl⟩ := gives_pure_iff.1 hx
      obtain ⟨htargets, hnew⟩ := ih hxs ho
      exact ⟨by simp [htargets, Started.target?], hnew⟩
    | held stop => exact absurd hx not_gives_throw

theorem mapM_endStarted_of_tryEnd {started : List Started} {ends : List Path}
    (h : (started.mapM ctx.tryEnd).Gives s (ends.map .ok) t) :
    (started.mapM ctx.endStarted).Gives s ends t := by
  induction started generalizing ends s with
  | nil =>
    obtain ⟨he, rfl⟩ := gives_mapM_nil_iff.1 h
    exact gives_mapM_nil_iff.2 ⟨List.map_eq_nil_iff.1 he, rfl⟩
  | cons x xs ih =>
    obtain ⟨r, u, rs, hr, hrs, he⟩ := gives_mapM_cons_iff.1 h
    obtain ⟨target, rest, rfl, rfl, rfl⟩ := List.map_eq_cons_iff.1 he
    refine gives_mapM_cons_iff.2 ⟨target, u, rest, ?_, ih hrs, rfl⟩
    rcases gives_tryCatch_iff.1 hr with hr | ⟨e, v, -, hr⟩
    · obtain ⟨target', hx, hok⟩ := gives_map_iff.1 hr
      cases hok
      exact hx
    · cases (gives_pure_iff.1 hr).1

theorem ok_of_mapM_settle {settle : Except Stop Path → Build Path}
    (hok : ∀ p, settle (.ok p) = pure p) (herror : ∀ e, settle (.error e) = throw e)
    {rs : List (Except Stop Path)} {ends : List Path} (h : (rs.mapM settle).Gives s ends t) :
    rs = ends.map .ok ∧ s = t := by
  induction rs generalizing ends s with
  | nil =>
    obtain ⟨rfl, rfl⟩ := gives_mapM_nil_iff.1 h
    exact ⟨rfl, rfl⟩
  | cons r rs ih =>
    obtain ⟨target, u, rest, hr, hrs, rfl⟩ := gives_mapM_cons_iff.1 h
    cases r with
    | ok target' =>
      rw [hok] at hr
      obtain ⟨rfl, rfl⟩ := gives_pure_iff.1 hr
      obtain ⟨rfl, rfl⟩ := ih hrs
      exact ⟨rfl, rfl⟩
    | error stop =>
      rw [herror] at hr
      exact absurd hr not_gives_throw

/-- Jobs that all end well have ended in their order or in the opposite one. -/
theorem mapM_of_endWave {backwards : Bool} {started : List Started} {ends : List Path}
    (h : (ctx.endWave backwards started).Gives s ends t) :
    (started.mapM ctx.endStarted).Gives s ends t ∨
      (started.reverse.mapM ctx.endStarted).Gives s ends.reverse t := by
  rw [endWave] at h
  split at h
  case isTrue =>
    right
    obtain ⟨rs, u, hrs, h⟩ := gives_bind_iff.1 h
    obtain ⟨he, rfl⟩ := ok_of_mapM_settle (fun _ => rfl) (fun _ => rfl) h
    refine mapM_endStarted_of_tryEnd ?_
    rwa [List.map_reverse, ← he, List.reverse_reverse]
  case isFalse => exact .inl h

theorem calls_reverse (started : List Started) :
    Started.calls started.reverse = (Started.calls started).reverse := by
  rw [Started.calls, List.filterMap_reverse, Started.calls]

theorem moves_of_endWave (targets others : Path → Prop) (a : List Answered) {backwards : Bool}
    {started : List Started} {ends : List Path} (h : (ctx.endWave backwards started).Gives s ends t) :
    started.map Started.target? = ends.map some ∧ ∃ new,
      (new.map Answered.job).Perm ((Started.calls started).map (·.job)) ∧
      Moves ctx targets others ⟨Started.calls started, a, s⟩ ⟨[], a ++ new, t⟩ := by
  rcases mapM_of_endWave h with h | h
  · exact moves_of_mapM_endStarted h .rfl
  · have ho : (Started.calls started).Perm (Started.calls started.reverse) := by
      rw [calls_reverse]
      exact (List.reverse_perm _).symm
    obtain ⟨htargets, new, hperm, hm⟩ := moves_of_mapM_endStarted h ho
    refine ⟨?_, new, hperm.trans (ho.symm.map _), hm⟩
    rw [List.map_reverse, List.map_reverse] at htargets
    exact List.reverse_inj.1 htargets

/-! ## Runs of jobs -/

theorem moves_of_waves (others : Path → Prop) (a : List Answered) {large : Bool} {slots n : Nat}
    {jobs : List Job} {ends : List Path} (room : 0 < slots) (hn : jobs.length ≤ n)
    (hj : ∀ j ∈ jobs, targets j.target)
    (h : (ctx.waves large slots n jobs).Gives s ends t) :
    ends = jobs.map (·.target) ∧ ∃ new, (new.map Answered.job).Perm jobs ∧
      Moves ctx targets others ⟨[], a, s⟩ ⟨[], a ++ new, t⟩ := by
  induction n generalizing jobs s ends a with
  | zero =>
    obtain rfl := List.eq_nil_of_length_eq_zero (Nat.le_zero.1 hn)
    obtain ⟨rfl, rfl⟩ := gives_pure_iff.1 h
    exact ⟨rfl, [], .nil, by simpa using .refl⟩
  | succ n ih =>
    cases jobs with
    | nil =>
      obtain ⟨rfl, rfl⟩ := gives_pure_iff.1 h
      exact ⟨rfl, [], .nil, by simpa using .refl⟩
    | cons j js =>
      rw [waves] at h
      obtain ⟨⟨started, rest⟩, u, hstart, h⟩ := gives_bind_iff.1 h
      obtain ⟨first, v, hend, h⟩ := gives_bind_iff.1 h
      obtain ⟨later, w, hlater, h⟩ := gives_bind_iff.1 h
      obtain ⟨rfl, rfl⟩ := gives_pure_iff.1 h
      have hstarted : ∀ x ∈ started, x.target? ≠ none := by
        intro x hx hnone
        have hmem : none ∈ started.map Started.target? := hnone ▸ List.mem_map_of_mem hx
        rw [(moves_of_endWave targets others a hend).1] at hmem
        simp at hmem
      obtain ⟨taken, new, hjobs, htaken, hperm, hmoves⟩ :=
        moves_of_startWave others [] a hj hstart hstarted
      obtain ⟨htargets, closed, hclosed, hmoves'⟩ :=
        moves_of_endWave targets others (a ++ new) hend
      have hfirst : first = taken.map (·.target) := by
        have : (taken.map (·.target)).map some = first.map some := by
          rw [List.map_map]
          exact htaken.symm.trans htargets
        exact ((List.map_inj_right fun _ _ h => Option.some.inj h).1 this).symm
      have hrest : rest.length ≤ n := by
        obtain ⟨k, rfl⟩ := Nat.exists_eq_add_one.2 room
        have hne := ne_nil_of_startWave hstart
        have htaken' : taken.length ≠ 0 := by
          intro h0
          have := congrArg List.length htaken
          rw [List.length_map, List.length_map, h0] at this
          exact hne (List.eq_nil_of_length_eq_zero this)
        have := congrArg List.length hjobs
        rw [List.length_append] at this
        omega
      obtain ⟨hlast, others', hperm', hmoves''⟩ := ih (a ++ new ++ closed) hrest
        (fun x hx => hj x (hjobs ▸ List.mem_append_right taken hx)) hlater
      refine ⟨by rw [hjobs, List.map_append, hfirst, hlast], new ++ closed ++ others', ?_, ?_⟩
      · rw [hjobs, List.map_append, List.map_append]
        exact ((hclosed.append_left _).trans hperm).append hperm'
      · rw [← List.append_assoc, ← List.append_assoc]
        exact (hmoves.trans hmoves').trans hmoves''

theorem moves_of_runGroup (others : Path → Prop) (a : List Answered) {slots : Nat} {jobs : List Job}
    {ends : List Path} (room : jobs ≠ [] → 0 < slots) (hj : ∀ j ∈ jobs, targets j.target)
    (h : (ctx.runGroup slots jobs).Gives s ends t) :
    ends = jobs.map (·.target) ∧ ∃ new, (new.map Answered.job).Perm jobs ∧
      Moves ctx targets others ⟨[], a, s⟩ ⟨[], a ++ new, t⟩ := by
  cases jobs with
  | nil =>
    obtain ⟨rfl, rfl⟩ := gives_pure_iff.1 h
    exact ⟨rfl, [], .nil, by simpa using .refl⟩
  | cons j js => exact moves_of_waves others a (room (by simp)) (Nat.le_refl _) hj h

theorem moves_of_batches (others : Path → Prop) (a : List Answered) {batches : List (List Job)}
    {ends : List (List Path)} (hj : ∀ batch ∈ batches, ∀ j ∈ batch, targets j.target)
    (h : (batches.mapM fun batch => ctx.runGroup batch.length batch).Gives s ends t) :
    ends.flatten = batches.flatten.map (·.target) ∧ ∃ new, (new.map Answered.job).Perm batches.flatten ∧
      Moves ctx targets others ⟨[], a, s⟩ ⟨[], a ++ new, t⟩ := by
  induction batches generalizing s ends a with
  | nil =>
    obtain ⟨rfl, rfl⟩ := gives_mapM_nil_iff.1 h
    exact ⟨rfl, [], .nil, by simpa using .refl⟩
  | cons batch batches ih =>
    obtain ⟨first, u, later, hfirst, hlater, rfl⟩ := gives_mapM_cons_iff.1 h
    obtain ⟨rfl, new, hperm, hm⟩ := moves_of_runGroup others a List.length_pos_iff.2
      (hj batch List.mem_cons_self) hfirst
    obtain ⟨hends, new', hperm', hm'⟩ := ih (a ++ new)
      (fun b hb => hj b (List.mem_cons_of_mem _ hb)) hlater
    refine ⟨?_, new ++ new', ?_, ?_⟩
    · rw [List.flatten_cons, List.flatten_cons, List.map_append, hends]
    · rw [List.map_append, List.flatten_cons]
      exact hperm.append hperm'
    · rw [← List.append_assoc]
      exact hm.trans hm'

/-- A run of jobs that succeeds gives their targets in their order, and each of the jobs is answered
once, in some order. -/
theorem moves_of_runJobs (others : Path → Prop) (a : List Answered) {jobs : List Job}
    {ends : List Path} (hj : ∀ j ∈ jobs, targets j.target) (h : (ctx.runJobs jobs).Gives s ends t) :
    ends = jobs.map (·.target) ∧ ∃ new, (new.map Answered.job).Perm jobs ∧
      Moves ctx targets others ⟨[], a, s⟩ ⟨[], a ++ new, t⟩ := by
  rw [runJobs] at h
  split at h
  · obtain ⟨ends, u, hb, h⟩ := gives_bind_iff.1 h
    obtain ⟨rfl, rfl⟩ := gives_pure_iff.1 h
    have all := flatten_chunks (max ctx.settings.batchSize 1) jobs
    have hj' : ∀ batch ∈ chunks (max ctx.settings.batchSize 1) jobs, ∀ j ∈ batch, targets j.target :=
      fun batch hb j hjb => hj j (all ▸ List.mem_flatten_of_mem hb hjb)
    have := moves_of_batches others a hj' hb
    rwa [all] at this
  · rw [runPooled] at h
    split at h
    · exact absurd h not_gives_throw
    · exact moves_of_runGroup others a (fun _ => by omega) hj h

end Context

end LocaleForge
