import LocaleForge.Build.Interleaving
import LocaleForge.Proofs.Attempts
import LocaleForge.Proofs.Moves

/-!
Runs of jobs in which answers come in any order. Each step of a run moves one job on, so the calls
that a run makes can be told apart by their jobs, and what one move does to a job carries over to
whole runs: how many calls are open, which calls each job has made, and where the run stands.
-/

namespace LocaleForge

/-! ## One job -/

/-- A job moves on, and these calls are made for it. -/
inductive Job.Advances (s : Settings) (j : Job) : Progress → List Event → Progress → Prop where
  | unread {stop : Stop} : Advances s j .waiting [.read (j.headerPath s)] (.failed stop)
  | opened {header : String} {reads : List Event}
    (hr : reads = [] ∨ reads = [.read (j.headerPath s)]) :
    Advances s j .waiting (reads ++ [.request (.ofJob s j)]) (.opened ⟨j, header, .ofJob s j⟩)
  | unanswered {c : OpenCall} {stop : Stop} :
    Advances s j (.opened c) [.reply ⟨c.request, none⟩] (.failed stop)
  | unwritten {c : OpenCall} {text : String} {stop : Stop} :
    Advances s j (.opened c) [.reply ⟨c.request, some text⟩, .write c.job.target] (.failed stop)
  | written {c : OpenCall} {text : String} :
    Advances s j (.opened c) [.reply ⟨c.request, some text⟩, .write c.job.target]
      (.written c.job.target)

/-- The calls that have been made for a job that has come so far. -/
inductive Job.Calls (s : Settings) (j : Job) : Progress → List Event → Prop where
  | none : Calls s j .waiting []
  | more {p q : Progress} {calls new : List Event} (before : Calls s j p calls)
    (h : j.Advances s p new q) : Calls s j q (calls ++ new)

namespace Job

variable {s : Settings} {j : Job} {p q : Progress} {calls new : List Event}

theorem Advances.ne (h : j.Advances s p new q) : p ≠ q := by
  cases h <;> nofun

theorem Calls.of_waiting (h : j.Calls s .waiting calls) : calls = [] := by
  cases h with
  | none => rfl
  | more before h => cases h

theorem Calls.of_opened {c : OpenCall} (h : j.Calls s (.opened c) calls) :
    c.job = j ∧ calls.filterMap Event.request? = [.ofJob s j] ∧ calls.filterMap Event.written? = [] := by
  cases h with
  | more before h =>
    cases h with
    | opened hr =>
      rw [before.of_waiting]
      rcases hr with rfl | rfl <;> exact ⟨rfl, rfl, rfl⟩

/-- A job that has written its file has made one request and one write. -/
theorem Calls.of_written {target : Path} (h : j.Calls s (.written target) calls) :
    target = j.target ∧ calls.filterMap Event.request? = [.ofJob s j] ∧
      calls.filterMap Event.written? = [j.target] := by
  cases h with
  | more before h =>
    cases h with
    | written =>
      obtain ⟨rfl, hr, hw⟩ := before.of_opened
      rw [List.filterMap_append, List.filterMap_append, hr, hw]
      exact ⟨rfl, rfl, rfl⟩

/-- However far a job has come, it has made its request at most once and its write at most once. -/
theorem Calls.once (h : j.Calls s p calls) :
    calls.filterMap Event.request? <+: [.ofJob s j] ∧
      calls.filterMap Event.written? <+: [j.target] := by
  cases p with
  | waiting =>
    rw [h.of_waiting]
    exact ⟨List.nil_prefix, List.nil_prefix⟩
  | opened c =>
    obtain ⟨-, hr, hw⟩ := h.of_opened
    rw [hr, hw]
    exact ⟨List.prefix_rfl, List.nil_prefix⟩
  | written target =>
    obtain ⟨-, hr, hw⟩ := h.of_written
    rw [hr, hw]
    exact ⟨List.prefix_rfl, List.prefix_rfl⟩
  | failed stop =>
    cases h with
    | more before h =>
      cases h with
      | unread =>
        rw [before.of_waiting]
        exact ⟨List.nil_prefix, List.nil_prefix⟩
      | unanswered =>
        obtain ⟨-, hr, hw⟩ := before.of_opened
        rw [List.filterMap_append, List.filterMap_append, hr, hw]
        exact ⟨List.prefix_rfl, List.nil_prefix⟩
      | unwritten =>
        obtain ⟨rfl, hr, hw⟩ := before.of_opened
        rw [List.filterMap_append, List.filterMap_append, hr, hw]
        exact ⟨List.prefix_rfl, List.prefix_rfl⟩

/-- A move opens one call when it makes a request, and closes one when it takes a reply. -/
theorem Advances.balance (h : j.Advances s p new q) :
    (new.filterMap Event.request?).length + p.isOpen.toNat =
      (new.filterMap Event.reply?).length + q.isOpen.toNat := by
  cases h with
  | opened hr =>
    rcases hr with rfl | rfl <;> rfl
  | unread => rfl
  | unanswered => rfl
  | unwritten => rfl
  | written => rfl

/-- The calls that are open grow only by a job that was waiting. -/
theorem Advances.isOpen_le (h : j.Advances s p new q) :
    q.isOpen.toNat ≤ p.isOpen.toNat + p.isWaiting.toNat := by
  cases h with
  | opened => exact Nat.le_refl 1
  | unread => exact Nat.zero_le _
  | unanswered => exact Nat.zero_le _
  | unwritten => exact Nat.zero_le _
  | written => exact Nat.zero_le _

end Job

/-- A bundler that takes no entry of the tree away. -/
def Bundler.Keeping (b : Bundler) : Prop :=
  ∀ r (d : Disk), d.Keeps (b.reply r d).2

namespace Context

variable {ctx : Context} {s t : BuildState} {j : Job}

theorem advances_of_openCall {r : Except Stop OpenCall} (h : (ctx.openCall j).run.run s = (r, t)) :
    t.disk = s.disk ∧
      ∃ calls, t.log = s.log ++ calls ∧ j.Advances ctx.settings .waiting calls (.ofStart r) := by
  rcases openCall_cases h with ⟨text, rfl, ⟨-, rfl⟩ | ⟨-, -, rfl⟩⟩ | ⟨f, rfl, rfl⟩
  · exact ⟨rfl, _, rfl, .opened (.inl rfl)⟩
  · exact ⟨rfl, _, rfl, .opened (.inr rfl)⟩
  · exact ⟨rfl, _, rfl, .unread⟩

theorem advances_of_closeCall {c : OpenCall} {r : Except Stop Path}
    (h : (ctx.closeCall c).run.run s = (r, t)) :
    ∃ calls, t.log = s.log ++ calls ∧ j.Advances ctx.settings (.opened c) calls (.ofEnd r) := by
  rcases closeCall_cases h with ⟨f, rfl, rfl⟩ | ⟨text, w, d, -, ⟨-, rfl⟩ | ⟨f, -, rfl⟩, rfl⟩
  · exact ⟨_, rfl, .unanswered⟩
  · exact ⟨_, rfl, .written⟩
  · exact ⟨_, rfl, .unwritten⟩

/-- Where the bundler takes nothing away, what was there before a call is closed is there
afterwards, and the file of the job is there if the call ends well. -/
theorem keeps_of_closeCall (usual : ctx.storage = .disk)
    (keeping : ctx.bundler.Keeping) {c : OpenCall} {r : Except Stop Path}
    (h : (ctx.closeCall c).run.run s = (r, t)) :
    s.disk.Keeps t.disk ∧ ∀ target, r = .ok target → t.disk.isFile target = true := by
  have hk := keeping c.request s.disk
  rcases closeCall_cases h with ⟨f, rfl, rfl⟩ | ⟨text, w, d, hw, hr, rfl⟩
  · exact ⟨hk, nofun⟩
  · rw [usual] at hw
    refine ⟨hk.trans (Disk.touched_of_write hw).keeps, fun target htarget => ?_⟩
    rcases hr with ⟨rfl, rfl⟩ | ⟨f, -, rfl⟩
    · cases htarget
      obtain ⟨loc, hwrote⟩ := Disk.wrote_of_write hw
      exact hwrote.isFile
    · cases htarget

end Context

/-! ## One group -/

namespace Group

variable {ctx : Context} {slots : Nat} {g g' : Group}

/-- A step moves one job of its group on. -/
theorem Step.advances (h : g.Step ctx slots g') : ∃ before j p q after calls,
    g.jobs = before ++ (j, p) :: after ∧ g'.jobs = before ++ (j, q) :: after ∧
    g'.state.log = g.state.log ++ calls ∧ j.Advances ctx.settings p calls q ∧
    (p.isWaiting = true → g.openCalls < slots) := by
  cases h with
  | start first room opens =>
    obtain ⟨-, calls, hlog, ha⟩ := Context.advances_of_openCall opens
    exact ⟨_, _, _, _, _, calls, rfl, rfl, hlog, ha, fun _ => room⟩
  | finish closes =>
    obtain ⟨calls, hlog, ha⟩ := Context.advances_of_closeCall closes
    exact ⟨_, _, _, _, _, calls, rfl, rfl, hlog, ha, nofun⟩

theorem openCalls_middle {s : BuildState} (before : List (Job × Progress)) (j : Job) (p : Progress)
    (after : List (Job × Progress)) :
    openCalls ⟨s, before ++ (j, p) :: after⟩ =
      openCalls ⟨s, before ++ after⟩ + p.isOpen.toNat := by
  simp only [openCalls, List.countP_append, List.countP_cons]
  cases p.isOpen with
  | true => rw [if_pos rfl, Bool.toNat_true, Nat.add_assoc]
  | false => rw [if_neg Bool.false_ne_true, Bool.toNat_false, Nat.add_zero, Nat.add_zero]

theorem Step.openCalls_le (h : g.Step ctx slots g') (hg : g.openCalls ≤ slots) :
    g'.openCalls ≤ slots := by
  obtain ⟨s, jobs⟩ := g
  obtain ⟨s', jobs'⟩ := g'
  obtain ⟨before, j, p, q, after, calls, rfl, rfl, -, ha, room⟩ := h.advances
  have hle := ha.isOpen_le
  rw [openCalls_middle] at hg room ⊢
  have hrest : openCalls ⟨s', before ++ after⟩ = openCalls ⟨s, before ++ after⟩ := rfl
  rw [hrest]
  cases hw : p.isWaiting with
  | true =>
    have hroom := room hw
    have hnot : p.isOpen = false := by cases p <;> first | rfl | cases hw
    rw [hw, hnot] at hle
    rw [hnot] at hroom
    simp only [Bool.toNat_false, Bool.toNat_true, Nat.zero_add, Nat.add_zero] at hle hroom
    omega
  | false =>
    rw [hw, Bool.toNat_false, Nat.add_zero] at hle
    omega

/-- What lies in the tree stays there, and the file of a job is there once the job has written it. -/
theorem Step.keeps (usual : ctx.storage = .disk) (keeping : ctx.bundler.Keeping)
    (h : g.Step ctx slots g') : g.state.disk.Keeps g'.state.disk ∧
      ∀ j target, (j, Progress.written target) ∈ g'.jobs →
        (j, Progress.written target) ∈ g.jobs ∨ g'.state.disk.isFile target = true := by
  cases h with
  | @start s t before after j r first room opens =>
    obtain ⟨hdisk, -⟩ := Context.advances_of_openCall opens
    refine ⟨by rw [hdisk]; exact .refl _, fun k target hk => .inl ?_⟩
    simp only [List.mem_append, List.mem_cons, Prod.mk.injEq] at hk ⊢
    rcases hk with hk | ⟨-, hk⟩ | hk
    · exact .inl hk
    · cases r <;> cases hk
    · exact .inr (.inr hk)
  | @finish s t before after j c r closes =>
    obtain ⟨hkeeps, hfile⟩ := Context.keeps_of_closeCall usual keeping closes
    refine ⟨hkeeps, fun k target hk => ?_⟩
    simp only [List.mem_append, List.mem_cons, Prod.mk.injEq] at hk ⊢
    rcases hk with hk | ⟨-, hk⟩ | hk
    · exact .inl (.inl hk)
    · cases r with
      | ok p =>
        cases hk
        exact .inr (hfile _ rfl)
      | error stop => cases hk
    · exact .inl (.inr (.inr hk))

end Group

end LocaleForge
