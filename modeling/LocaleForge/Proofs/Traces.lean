import LocaleForge.Proofs.Interleaved

/-!
The calls of a run, told apart by the jobs that they are made for. At each moment every job has made
the calls of what it has come to, the groups before the running one are written, and those after it
have not begun.
-/

namespace LocaleForge

/-- Calls in their order, each with the number of its job. -/
abbrev Trace := List (Nat × Event)

namespace Trace

/-- The calls that are made for one job. -/
def own (trace : Trace) (n : Nat) : List Event :=
  (trace.filter (·.1 = n)).map (·.2)

theorem own_append (trace trace' : Trace) (n : Nat) :
    own (trace ++ trace') n = own trace n ++ own trace' n := by
  rw [own, List.filter_append, List.map_append, own, own]

theorem own_calls (calls : List Event) (n m : Nat) :
    own (calls.map (n, ·)) m = if m = n then calls else [] := by
  by_cases h : m = n
  · subst h
    rw [if_pos rfl, own, List.filter_eq_self.2 (by simp), List.map_map]
    exact List.map_id calls
  · rw [if_neg h, own, List.filter_eq_nil_iff.2 ?_, List.map_nil]
    intro x hx
    obtain ⟨e, -, rfl⟩ := List.mem_map.1 hx
    simpa using Ne.symm h

end Trace

/-- A group has its targets when each of its jobs has written its file. -/
theorem Group.targets?_eq_some_iff {g : Group} {targets : List Path} :
    g.targets? = some targets ↔ g.jobs.map (·.2) = targets.map .written := by
  obtain ⟨s, jobs⟩ := g
  rw [targets?]
  induction jobs generalizing targets with
  | nil =>
    cases targets with
    | nil => exact ⟨fun _ => rfl, fun _ => rfl⟩
    | cons target targets => exact ⟨nofun, nofun⟩
  | cons x jobs ih =>
    obtain ⟨j, p⟩ := x
    simp only [List.mapM_cons]
    constructor
    · intro h
      obtain ⟨target, htarget, h⟩ := Option.bind_eq_some_iff.1 h
      obtain ⟨rest, hrest, h⟩ := Option.bind_eq_some_iff.1 h
      cases h
      cases p <;> cases htarget
      rw [List.map_cons, ih.1 hrest, List.map_cons]
    · intro h
      cases targets with
      | nil => cases h
      | cons target targets =>
        obtain ⟨rfl, hjobs⟩ := List.cons.inj h
        rw [ih.2 hjobs]
        rfl

namespace Interleaving

/-- How far each job has come, in the order of the jobs. -/
def progress (i : Interleaving) : List Progress :=
  i.ended.map .written ++ i.current.jobs.map (·.2) ++ i.later.flatten.map fun _ => .waiting

/-- A run with the calls that it has made. A step makes its calls for the job that it moves on. -/
inductive Traced (ctx : Context) (slots : Nat) (i : Interleaving) : Trace → Interleaving → Prop where
  | refl : Traced ctx slots i [] i
  | step {trace : Trace} {k l : Interleaving} {n : Nat} {calls : List Event}
    (before : Traced ctx slots i trace k) (last : k.Step ctx slots l)
    (log : l.current.state.log = k.current.state.log ++ calls)
    (others : ∀ m, m ≠ n → l.progress[m]? = k.progress[m]?) :
    Traced ctx slots i (trace ++ calls.map (n, ·)) l

variable {ctx : Context} {slots : Nat} {i k : Interleaving} {s : BuildState} {trace : Trace}

theorem progress_within (ended : List Path) (s : BuildState) (before : List (Job × Progress)) (j : Job)
    (p : Progress) (after : List (Job × Progress)) (later : List (List Job)) :
    progress ⟨ended, ⟨s, before ++ (j, p) :: after⟩, later⟩ =
      (ended.map .written ++ before.map (·.2)) ++
        p :: (after.map (·.2) ++ later.flatten.map fun _ => .waiting) := by
  simp only [progress, List.map_append, List.map_cons, List.append_assoc, List.cons_append]

/-- Where one entry of a list is another, the other entries are the same. -/
theorem getElem?_middle {α : Type} (before : List α) (a b : α) (after : List α) (m : Nat) :
    (before ++ b :: after)[m]? = if m = before.length then some b else (before ++ a :: after)[m]? := by
  split
  case isTrue h => rw [h, List.getElem?_append_right (Nat.le_refl _), Nat.sub_self,
    List.getElem?_cons_zero]
  case isFalse h =>
    rcases Nat.lt_or_gt_of_ne h with hlt | hgt
    · rw [List.getElem?_append_left hlt, List.getElem?_append_left hlt]
    · obtain ⟨d, hd⟩ := Nat.exists_eq_add_of_lt hgt
      have hm : m - before.length = d + 1 := by omega
      rw [List.getElem?_append_right (Nat.le_of_lt hgt), List.getElem?_append_right (Nat.le_of_lt hgt),
        hm, List.getElem?_cons_succ, List.getElem?_cons_succ]

/-- A step moves one job on, or begins the next group. -/
inductive Moved (settings : Settings) : Interleaving → Interleaving → Prop where
  | on {ended : List Path} {s t : BuildState} {before after : List (Job × Progress)} {j : Job}
    {p q : Progress} {calls : List Event} {later : List (List Job)}
    (log : t.log = s.log ++ calls) (advances : j.Advances settings p calls q) :
    Moved settings ⟨ended, ⟨s, before ++ (j, p) :: after⟩, later⟩
      ⟨ended, ⟨t, before ++ (j, q) :: after⟩, later⟩
  | next {ended targets : List Path} {s : BuildState} {now : List (Job × Progress)} {jobs : List Job}
    {later : List (List Job)} (all : now.map (·.2) = targets.map .written) :
    Moved settings ⟨ended, ⟨s, now⟩, jobs :: later⟩ ⟨ended ++ targets, .ofJobs s jobs, later⟩

theorem Step.moved (h : i.Step ctx slots k) : Moved ctx.settings i k := by
  cases h with
  | @within ended g g' later step =>
    obtain ⟨s, jobs⟩ := g
    obtain ⟨t, jobs'⟩ := g'
    obtain ⟨before, j, p, q, after, calls, rfl, rfl, log, advances, -⟩ := step.advances
    exact .on log advances
  | next all => exact .next (Group.targets?_eq_some_iff.1 all)

/-- When the next group begins, no job has come farther. -/
theorem progress_next {ended targets : List Path} {s : BuildState} {now : List (Job × Progress)}
    {jobs : List Job} {later : List (List Job)} (all : now.map (·.2) = targets.map .written) :
    progress ⟨ended ++ targets, .ofJobs s jobs, later⟩ = progress ⟨ended, ⟨s, now⟩, jobs :: later⟩ := by
  simp only [progress, Group.ofJobs, all, List.map_append, List.flatten_cons, List.map_map,
    List.append_assoc, Function.comp_def]

/-- Each run has a trace. -/
theorem Reaches.traced (h : Reaches ctx slots i k) : ∃ trace, Traced ctx slots i trace k := by
  induction h with
  | refl => exact ⟨[], .refl⟩
  | step _ last ih =>
    obtain ⟨trace, ht⟩ := ih
    cases last.moved with
    | @on ended s t before after j p q calls later log advances =>
      let place := (ended.map Progress.written ++ before.map (·.2)).length
      refine ⟨_, .step (n := place) ht last log fun m hm => ?_⟩
      rw [progress_within, progress_within, getElem?_middle _ p, if_neg hm]
    | next all =>
      refine ⟨_, .step (n := 0) ht last (List.append_nil _).symm fun m hm => ?_⟩
      rw [progress_next all]

/-- What is known of a run of groups that began in a state, and of the calls that it has made. -/
structure Stands (settings : Settings) (groups : List (List Job)) (s : BuildState) (trace : Trace)
    (i : Interleaving) : Prop where
  log : i.current.state.log = s.log ++ trace.map (·.2)
  numbered : ∀ n e, (n, e) ∈ trace → n < groups.flatten.length
  places : ∃ past now, groups = past ++ now :: i.later ∧
    i.ended.length = past.flatten.length ∧ i.current.jobs.map (·.1) = now
  calls : ∀ n (j : Job), groups.flatten[n]? = some j →
    ∃ p, i.progress[n]? = some p ∧ j.Calls settings p (Trace.own trace n)
  balance : (trace.filterMap (·.2.request?)).length =
    (trace.filterMap (·.2.reply?)).length + i.current.openCalls

variable {settings : Settings} {groups : List (List Job)}

theorem openCalls_ofJobs (s : BuildState) (jobs : List Job) : (Group.ofJobs s jobs).openCalls = 0 := by
  rw [Group.openCalls, List.countP_eq_zero]
  intro x hx
  obtain ⟨j, -, rfl⟩ := List.mem_map.1 hx
  exact Bool.false_ne_true

theorem openCalls_of_written {now : List (Job × Progress)} {targets : List Path}
    (all : now.map (·.2) = targets.map .written) (s : BuildState) : Group.openCalls ⟨s, now⟩ = 0 := by
  rw [Group.openCalls, List.countP_eq_zero]
  intro x hx
  have hmem : x.2 ∈ targets.map .written := all ▸ List.mem_map_of_mem hx
  obtain ⟨target, -, ht⟩ := List.mem_map.1 hmem
  rw [← ht]
  exact Bool.false_ne_true

theorem Stands.begin (settings : Settings) (s : BuildState) (jobs : List Job) (later : List (List Job)) :
    Stands settings (jobs :: later) s [] (ofGroups s (jobs :: later)) where
  log := (List.append_nil _).symm
  numbered n e h := absurd h List.not_mem_nil
  places := by
    refine ⟨[], jobs, rfl, rfl, ?_⟩
    simp only [ofGroups, Group.ofJobs, List.map_map, Function.comp_def, List.map_id']
  calls n j h := by
    refine ⟨.waiting, ?_, .none⟩
    simp only [progress, ofGroups, Group.ofJobs, List.map_nil, List.nil_append, List.map_map,
      Function.comp_def, ← List.map_append]
    rw [List.getElem?_map, ← List.flatten_cons, h]
    rfl
  balance := by
    simp only [List.filterMap_nil, List.length_nil, Nat.zero_add]
    exact (openCalls_ofJobs s jobs).symm

/-- The jobs have the numbers that their places give them. -/
theorem Stands.getElem? {ended : List Path} {t : BuildState} {before after : List (Job × Progress)}
    {j : Job} {p : Progress} {later : List (List Job)}
    (h : Stands settings groups s trace ⟨ended, ⟨t, before ++ (j, p) :: after⟩, later⟩) :
    groups.flatten[ended.length + before.length]? = some j := by
  obtain ⟨past, now, rfl, hended, rfl⟩ := h.places
  simp only at hended
  rw [List.flatten_append, List.flatten_cons, hended,
    List.getElem?_append_right (Nat.le_add_right _ _), Nat.add_sub_cancel_left, List.map_append,
    List.append_assoc, List.getElem?_append_right (Nat.le_of_eq (List.length_map _)), List.length_map,
    Nat.sub_self]
  rfl

theorem filterMap_calls {α : Type} (f : Event → Option α) (n : Nat) (calls : List Event) :
    (calls.map (n, ·)).filterMap (fun x => f x.2) = calls.filterMap f := by
  rw [List.filterMap_map]
  rfl

theorem Stands.on {ended : List Path} {t u : BuildState} {before after : List (Job × Progress)} {j : Job}
    {p q : Progress} {calls : List Event} {later : List (List Job)}
    (h : Stands settings groups s trace ⟨ended, ⟨t, before ++ (j, p) :: after⟩, later⟩)
    (log : u.log = t.log ++ calls) (advances : j.Advances settings p calls q) :
    Stands settings groups s (trace ++ calls.map (ended.length + before.length, ·))
      ⟨ended, ⟨u, before ++ (j, q) :: after⟩, later⟩ where
  log := by
    have hlog := h.log
    simp only at hlog ⊢
    rw [log, hlog, List.map_append, List.map_map, List.append_assoc]
    simp only [Function.comp_def, List.map_id']
  numbered n e hn := by
    rcases List.mem_append.1 hn with hn | hn
    · exact h.numbered n e hn
    · obtain ⟨_, -, he⟩ := List.mem_map.1 hn
      cases he
      exact (List.getElem?_eq_some_iff.1 h.getElem?).1
  places := by
    obtain ⟨past, now, hgroups, hended, hnow⟩ := h.places
    refine ⟨past, now, hgroups, hended, ?_⟩
    simpa only [List.map_append, List.map_cons] using hnow
  calls n k hk := by
    obtain ⟨r, hr, hc⟩ := h.calls n k hk
    rw [progress_within] at hr ⊢
    -- Only the job that has moved has new calls of its own.
    rw [Trace.own_append, Trace.own_calls, getElem?_middle _ p]
    have hlength : (ended.map Progress.written ++ before.map (·.2)).length =
        ended.length + before.length := by simp only [List.length_append, List.length_map]
    rw [hlength]
    split
    case isTrue hn =>
      subst hn
      have hjob := h.getElem?
      rw [hk] at hjob
      cases hjob
      rw [← hlength, List.getElem?_append_right (Nat.le_refl _), Nat.sub_self] at hr
      cases hr
      exact ⟨q, rfl, hc.more advances⟩
    case isFalse hn =>
      rw [List.append_nil]
      exact ⟨r, hr, hc⟩
  balance := by
    have hb := h.balance
    have ha := advances.balance
    simp only at hb ⊢
    rw [List.filterMap_append, List.filterMap_append, filterMap_calls Event.request?,
      filterMap_calls Event.reply?, List.length_append, List.length_append]
    rw [Group.openCalls_middle] at hb ⊢
    have hrest : Group.openCalls ⟨u, before ++ after⟩ = Group.openCalls ⟨t, before ++ after⟩ := rfl
    omega

theorem Stands.next {ended targets : List Path} {t : BuildState} {now : List (Job × Progress)}
    {jobs : List Job} {later : List (List Job)} (all : now.map (·.2) = targets.map .written)
    (h : Stands settings groups s trace ⟨ended, ⟨t, now⟩, jobs :: later⟩) :
    Stands settings groups s trace ⟨ended ++ targets, .ofJobs t jobs, later⟩ where
  log := h.log
  numbered := h.numbered
  places := by
    obtain ⟨past, now', hgroups, hended, hnow⟩ := h.places
    refine ⟨past ++ [now'], jobs, ?_, ?_, ?_⟩
    · rw [hgroups, List.append_assoc]
      rfl
    · have hlength := congrArg List.length all
      have hlength' := congrArg List.length hnow
      simp only [List.length_map] at hlength hlength' hended
      simp only [List.length_append, List.flatten_append, List.flatten_cons, List.flatten_nil,
        List.append_nil, hended]
      omega
    · simp only [Group.ofJobs, List.map_map, Function.comp_def, List.map_id']
  calls n j hj := by
    rw [progress_next all]
    exact h.calls n j hj
  balance := by
    have hb := h.balance
    simp only [openCalls_of_written all] at hb
    rw [hb, openCalls_ofJobs]

/-- However a run goes, it is known where it stands. -/
theorem Traced.stands {jobs : List Job} {later : List (List Job)}
    (h : Traced ctx slots (ofGroups s (jobs :: later)) trace i) :
    Stands ctx.settings (jobs :: later) s trace i := by
  induction h with
  | refl => exact .begin ctx.settings s jobs later
  | @step trace k l n calls before last log others ih =>
    cases last.moved with
    | @on ended t u before' after j p q calls' later' log' advances =>
      have hcalls : calls = calls' := List.append_cancel_left (log.symm.trans log')
      subst hcalls
      -- The job that is moved on is the only one that has come farther.
      have hn : n = ended.length + before'.length := by
        refine Decidable.byContradiction fun hne => ?_
        have hother := others _ (Ne.symm hne)
        have hlength : ended.length + before'.length =
            (ended.map Progress.written ++ before'.map (·.2)).length := by
          simp only [List.length_append, List.length_map]
        rw [progress_within, progress_within, getElem?_middle _ p, hlength, if_pos rfl,
          List.getElem?_append_right (Nat.le_refl _), Nat.sub_self] at hother
        exact advances.ne (Option.some.inj hother).symm
      rw [hn]
      exact ih.on log' advances
    | next all =>
      have hcalls : calls = [] := List.append_right_eq_self.1 log.symm
      rw [hcalls, List.map_nil, List.append_nil]
      exact ih.next all

/-- At each moment no more calls are open than there are slots. -/
theorem Reaches.openCalls_le (h : Reaches ctx slots i k) (hi : i.current.openCalls ≤ slots) :
    k.current.openCalls ≤ slots := by
  induction h with
  | refl => exact hi
  | step before last ih =>
    cases last with
    | within step => exact step.openCalls_le ih
    | next all =>
      rw [openCalls_ofJobs]
      exact Nat.zero_le slots

/-- The files that the jobs have written are there. -/
theorem Reaches.isFile (usual : ctx.storage = .disk) (keeping : ctx.bundler.Keeping)
    (h : Reaches ctx slots i k) (hi : ∀ target, .written target ∉ i.progress) {target : Path}
    (ht : .written target ∈ k.progress) : k.current.state.disk.isFile target = true := by
  induction h generalizing target with
  | refl => exact absurd ht (hi target)
  | step before last ih =>
    cases last with
    | @within ended g g' later step =>
      obtain ⟨hkeeps, hnew⟩ := step.keeps usual keeping
      simp only [progress, List.mem_append] at ht ih
      rcases ht with (ht | ht) | ht
      · exact hkeeps.isFile (ih (.inl (.inl ht)))
      · obtain ⟨⟨j, p⟩, hj, rfl⟩ := List.mem_map.1 ht
        rcases hnew j target hj with hold | hfile
        · exact hkeeps.isFile (ih (.inl (.inr (List.mem_map_of_mem (f := (·.2)) hold))))
        · exact hfile
      · exact hkeeps.isFile (ih (.inr ht))
    | next all =>
      rw [progress_next (Group.targets?_eq_some_iff.1 all)] at ht
      exact ih ht

end Interleaving

end LocaleForge
