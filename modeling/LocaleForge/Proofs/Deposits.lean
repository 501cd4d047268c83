import LocaleForge.Proofs.Answers
import LocaleForge.Proofs.Limits

/-!
The files of jobs that run at once. In whatever order the answers come, the file of a job that has ended lies where
its target headed at the start, and no other job changes it unless its target heads to the same place.
-/

namespace LocaleForge

open Build

namespace Context

variable {ctx : Context} {s t : BuildState} {j : Job}

/-- Opening a call takes no header from the shelf, and the header of the job is there afterwards. -/
theorem heads_of_openCall {r : Except Stop OpenCall} (h : (ctx.openCall j).run.run s = (r, t)) :
    (∀ k header, s.shelf.Heads ctx.settings k header → t.shelf.Heads ctx.settings k header) ∧
      ∀ c, r = .ok c → c.job = j ∧ c.request = .ofJob ctx.settings j ∧
        t.shelf.Heads ctx.settings j c.header := by
  rcases openCall_cases h with ⟨text, rfl, ⟨hheads, rfl⟩ | ⟨hp, hget, rfl⟩⟩ | ⟨f, rfl, rfl⟩
  · refine ⟨fun _ _ hk => hk, fun c hc => ?_⟩
    cases hc
    exact ⟨rfl, rfl, hheads⟩
  · refine ⟨fun _ _ hk => hk.put hget, fun c hc => ?_⟩
    cases hc
    exact ⟨rfl, rfl, .inr ⟨hp, Shelf.get?_put_self _ rfl text⟩⟩
  · exact ⟨fun _ _ hk => hk, fun c hc => by cases hc⟩

/-- Closing a call writes to the target of its job, if to anything. -/
theorem touched_of_closeCall (usual : ctx.storage = .disk) (quiet : ctx.bundler.Quiet) {c : OpenCall}
    {r : Except Stop Path} (h : (ctx.closeCall c).run.run s = (r, t)) :
    t.shelf = s.shelf ∧ (t.disk = s.disk ∨ s.disk.Touched c.job.target t.disk) ∧
      ∀ target, r = .ok target → ∃ reply loc, .reply ⟨c.request, some reply⟩ ∈ t.log.drop s.log.length ∧
        s.disk.Wrote c.job.target loc (Text.encode (c.output ctx.settings reply)) t.disk := by
  rcases closeCall_cases h with ⟨f, rfl, rfl⟩ | ⟨reply, w, d, hw, hr, rfl⟩
  · exact ⟨rfl, .inl (quiet _ _), nofun⟩
  · rw [usual, quiet] at hw
    refine ⟨rfl, .inr (Disk.touched_of_write hw), fun target htarget => ?_⟩
    rcases hr with ⟨rfl, -⟩ | ⟨f, -, rfl⟩
    · obtain ⟨loc, hwrote⟩ := Disk.wrote_of_write hw
      refine ⟨reply, loc, ?_, hwrote⟩
      rw [List.drop_left]
      exact List.mem_cons_self
    · cases htarget

end Context

/-- The file of the job with this number lies where its target headed at the start. It holds what was made of an
answer to the job, unless the target of another job heads there as well. -/
def Job.Delivered (settings : Settings) (jobs : List Job) (s : BuildState) (n : Nat) (j : Job)
    (t : BuildState) : Prop :=
  ∃ loc e b header reply, s.disk.heading? j.target = some loc ∧
    t.disk.find true j.target = .ok ⟨loc, some e, b⟩ ∧ t.shelf.Heads settings j header ∧
    Event.reply ⟨.ofJob settings j, some reply⟩ ∈ t.log.drop s.log.length ∧
    ((∀ (m : Nat) (k : Job), jobs[m]? = some k → s.disk.heading? k.target = some loc → m = n) →
      t.disk.content? loc =
        some (Text.encode (OpenCall.output ⟨j, header, .ofJob settings j⟩ settings reply)))

namespace Job.Delivered

variable {settings : Settings} {jobs : List Job} {s t u : BuildState} {n m : Nat} {j k : Job}
  {region : Location → Prop}

theorem same_disk (h : j.Delivered settings jobs s n t) (hd : u.disk = t.disk)
    (heads : ∀ header, t.shelf.Heads settings j header → u.shelf.Heads settings j header)
    (hlog : ∃ calls, u.log = t.log ++ calls) : j.Delivered settings jobs s n u := by
  obtain ⟨loc, e, b, header, reply, hloc, hf, hheads, hreply, hcontent⟩ := h
  obtain ⟨calls, hlog⟩ := hlog
  refine ⟨loc, e, b, header, reply, hloc, hd ▸ hf, heads header hheads, ?_, hd ▸ hcontent⟩
  rw [hlog, List.drop_append]
  exact List.mem_append_left _ hreply

/-- The file stays when another job writes its own. -/
theorem touched (h : j.Delivered settings jobs s n t) (hg : s.disk.Grown region t.disk)
    (hk : jobs[m]? = some k) (hne : m ≠ n) (ht : t.disk.Touched k.target u.disk)
    (hshelf : u.shelf = t.shelf) (hlog : ∃ calls, u.log = t.log ++ calls) :
    j.Delivered settings jobs s n u := by
  obtain ⟨loc, e, b, header, reply, hloc, hf, hheads, hreply, hcontent⟩ := h
  obtain ⟨calls, hlog⟩ := hlog
  obtain ⟨e', -, hf'⟩ := ht.keeps.find hf
  refine ⟨loc, e', b, header, reply, hloc, hf', hshelf ▸ hheads, ?_, fun hown => ?_⟩
  · rw [hlog, List.drop_append]
    exact List.mem_append_left _ hreply
  · rw [← hcontent hown]
    rcases ht.cases with ⟨hext, -⟩ | ⟨loc', content, hw⟩
    · exact Disk.content?_extends hext loc
    · have hother : loc ≠ loc' := by
        rintro rfl
        exact hne (hown m k hk (hw.heading? hg))
      rw [hw.content?, if_neg hother]

theorem read (h : j.Delivered settings jobs s n t)
    (hown : ∀ loc, s.disk.heading? j.target = some loc → ∀ (m : Nat) (k : Job), jobs[m]? = some k →
      s.disk.heading? k.target = some loc → m = n) :
    ∃ header reply, t.shelf.Heads settings j header ∧
      Event.reply ⟨.ofJob settings j, some reply⟩ ∈ t.log.drop s.log.length ∧
      t.disk.readText j.target =
        .ok (relocate j.comments settings.localeMarker (header ++ Text.dropLines j.skipped reply)) := by
  obtain ⟨loc, e, b, header, reply, hloc, hf, hheads, hreply, hcontent⟩ := h
  exact ⟨header, reply, hheads, hreply, Disk.readText_of_content? hf (hcontent (hown loc hloc))⟩

end Job.Delivered

/-! ## Runs in any order -/

namespace Interleaving

variable {ctx : Context} {slots : Nat} {jobs : List Job} {s : BuildState} {i k : Interleaving}

/-- The places that jobs head to. -/
def places (d : Disk) (jobs : List Job) (loc : Location) : Prop :=
  ∃ j ∈ jobs, d.heading? j.target = some loc

/-- What is known of the tree at each moment of a run of jobs. -/
structure Deposited (settings : Settings) (jobs : List Job) (s : BuildState) (i : Interleaving) : Prop where
  grown : s.disk.Grown (places s.disk jobs) i.current.state.disk
  opened : ∀ (j : Job) c, (j, .opened c) ∈ i.current.jobs → c.job = j ∧ c.request = .ofJob settings j ∧
    i.current.state.shelf.Heads settings j c.header
  written : ∀ (n : Nat) (j : Job) target, jobs[n]? = some j → i.progress[n]? = some (.written target) →
    j.Delivered settings jobs s n i.current.state

theorem Deposited.begin (settings : Settings) (s : BuildState) (first : List Job) (later : List (List Job)) :
    Deposited settings jobs s (ofGroups s (first :: later)) where
  grown := .refl _ _
  opened j c h := by
    obtain ⟨_, -, hpair⟩ := List.mem_map.1 h
    cases hpair
  written n j target _ h :=
    absurd (List.mem_of_getElem? h) (not_mem_progress_ofGroups s first later target)

variable {ended : List Path} {t u : BuildState} {before after : List (Job × Progress)} {j : Job}
  {later : List (List Job)}

theorem Deposited.start
    (h : Deposited ctx.settings jobs s ⟨ended, ⟨t, before ++ (j, .waiting) :: after⟩, later⟩)
    {r : Except Stop OpenCall} (opens : (ctx.openCall j).run.run t = (r, u)) :
    Deposited ctx.settings jobs s ⟨ended, ⟨u, before ++ (j, .ofStart r) :: after⟩, later⟩ := by
  obtain ⟨hdisk, calls, hlog, -⟩ := Context.advances_of_openCall opens
  obtain ⟨hstay, hheads⟩ := Context.heads_of_openCall opens
  refine ⟨?_, fun k c hk => ?_, fun n k target hn hp => ?_⟩
  · have hg := h.grown
    rwa [← hdisk] at hg
  · simp only [List.mem_append, List.mem_cons, Prod.mk.injEq] at hk
    have old : (k, .opened c) ∈ before ++ (j, .waiting) :: after → c.job = k ∧
        c.request = .ofJob ctx.settings k ∧ u.shelf.Heads ctx.settings k c.header := fun hmem => by
      obtain ⟨hjob, hrequest, hheader⟩ := h.opened k c hmem
      exact ⟨hjob, hrequest, hstay _ _ hheader⟩
    rcases hk with hk | ⟨rfl, hk⟩ | hk
    · exact old (List.mem_append_left _ hk)
    · cases r with
      | ok c' =>
        cases hk
        exact hheads c rfl
      | error stop => cases hk
    · exact old (List.mem_append_right _ (List.mem_cons_of_mem _ hk))
  · -- The job that has been started has not written its file yet, so the files are those of the other jobs.
    rw [progress_within, getElem?_middle _ .waiting] at hp
    split at hp
    case isTrue => cases r <;> cases hp
    case isFalse =>
      rw [← progress_within] at hp
      exact (h.written n k target hn hp).same_disk hdisk (hstay k) ⟨calls, hlog⟩

theorem Deposited.finish (usual : ctx.storage = .disk) (quiet : ctx.bundler.Quiet) {c : OpenCall}
    (h : Deposited ctx.settings jobs s ⟨ended, ⟨t, before ++ (j, .opened c) :: after⟩, later⟩)
    (place : jobs[ended.length + before.length]? = some j) (hbase : s.log.length ≤ t.log.length)
    {r : Except Stop Path} (closes : (ctx.closeCall c).run.run t = (r, u)) :
    Deposited ctx.settings jobs s ⟨ended, ⟨u, before ++ (j, .ofEnd r) :: after⟩, later⟩ := by
  obtain ⟨calls, hlog, -⟩ := Context.advances_of_closeCall (j := j) closes
  obtain ⟨hshelf, hdisk, hwrote⟩ := Context.touched_of_closeCall usual quiet closes
  obtain ⟨hjob, hrequest, hheader⟩ :=
    h.opened j c (List.mem_append_right _ List.mem_cons_self)
  rw [hjob] at hdisk hwrote
  have hmem : j ∈ jobs := List.mem_of_getElem? place
  refine ⟨?_, fun k c' hk => ?_, fun n k target hn hp => ?_⟩
  · rcases hdisk with hsame | htouched
    · have hg := h.grown
      rwa [← hsame] at hg
    · exact h.grown.touched htouched fun loc hloc => ⟨j, hmem, hloc⟩
  · simp only [List.mem_append, List.mem_cons, Prod.mk.injEq] at hk
    rw [hshelf]
    rcases hk with hk | ⟨-, hk⟩ | hk
    · exact h.opened k c' (List.mem_append_left _ hk)
    · cases r <;> cases hk
    · exact h.opened k c' (List.mem_append_right _ (List.mem_cons_of_mem _ hk))
  · have hlength : (ended.map Progress.written ++ before.map (·.2)).length =
        ended.length + before.length := by simp only [List.length_append, List.length_map]
    rw [progress_within, getElem?_middle _ (.opened c)] at hp
    split at hp
    case isTrue hself =>
      rw [hlength] at hself
      subst hself
      obtain rfl := Option.some.inj (hn.symm.trans place)
      cases r with
      | error stop => cases hp
      | ok written =>
        obtain ⟨reply, loc, hreply, hw⟩ := hwrote written rfl
        obtain ⟨e, b, hf⟩ := hw.find
        refine ⟨loc, e, b, c.header, reply, hw.heading? h.grown, hf, hshelf ▸ hheader, ?_, fun _ => ?_⟩
        · rw [hlog, List.drop_left] at hreply
          rw [hlog, List.drop_append_of_le_length hbase, ← hrequest]
          exact List.mem_append_right _ hreply
        · have hself : c.output ctx.settings reply =
              OpenCall.output ⟨k, c.header, .ofJob ctx.settings k⟩ ctx.settings reply := by
            rw [OpenCall.output, OpenCall.output, hjob]
          rw [hw.content?, if_pos rfl, hself]
    case isFalse hother =>
      rw [← progress_within] at hp
      have hdelivered := h.written n k target hn hp
      rcases hdisk with hsame | htouched
      · exact hdelivered.same_disk hsame (fun header hk => hshelf ▸ hk) ⟨calls, hlog⟩
      · have hne : ended.length + before.length ≠ n := fun hm => hother (hm.symm.trans hlength.symm)
        exact hdelivered.touched h.grown place hne htouched hshelf ⟨calls, hlog⟩

theorem Deposited.next {targets : List Path} {now : List (Job × Progress)} {next : List Job}
    (all : now.map (·.2) = targets.map .written)
    (h : Deposited ctx.settings jobs s ⟨ended, ⟨t, now⟩, next :: later⟩) :
    Deposited ctx.settings jobs s ⟨ended ++ targets, .ofJobs t next, later⟩ where
  grown := h.grown
  opened j c hj := by
    obtain ⟨_, -, hpair⟩ := List.mem_map.1 hj
    cases hpair
  written n j target hn hp := by
    rw [progress_next all] at hp
    exact h.written n j target hn hp

/-- At each moment of a run the files of the jobs that have ended are delivered. -/
theorem Reaches.deposited (usual : ctx.storage = .disk) (quiet : ctx.bundler.Quiet) {first : List Job}
    (h : Reaches ctx slots (ofGroups s (first :: later)) i) :
    Deposited ctx.settings (first :: later).flatten s i := by
  induction h with
  | refl => exact .begin ctx.settings s first later
  | step run last ih =>
    obtain ⟨trace, htrace⟩ := run.traced
    have stands := htrace.stands
    cases last with
    | next all => exact ih.next (Group.targets?_eq_some_iff.1 all)
    | within step =>
      cases step with
      | start first' room opens => exact ih.start opens
      | finish closes =>
        refine ih.finish usual quiet stands.getElem? ?_ closes
        have hlog := stands.log
        simp only at hlog
        rw [hlog, List.length_append]
        exact Nat.le_add_right _ _

end Interleaving

end LocaleForge
