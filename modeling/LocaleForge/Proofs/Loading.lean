import LocaleForge.Proofs.Answers
import LocaleForge.Proofs.Interleaved

/-!
Jobs that do not write over the headers of one another. Whatever some of them have done so far, the
same header is loaded for each of them, so the calls that they will open are known from the start.
-/

namespace LocaleForge

/-- From one state to another these requests were made and these paths written to. -/
def BuildState.Calls (s t : BuildState) (requests : List Request) (written : List Path) : Prop :=
  ∃ calls, t.log = s.log ++ calls ∧ calls.filterMap Event.request? = requests ∧
    calls.filterMap Event.written? = written

theorem BuildState.Calls.refl (s : BuildState) : s.Calls s [] [] :=
  ⟨[], (List.append_nil _).symm, rfl, rfl⟩

theorem BuildState.Calls.trans {s t u : BuildState} {requests requests' : List Request}
    {written written' : List Path} (h : s.Calls t requests written) (h' : t.Calls u requests' written') :
    s.Calls u (requests ++ requests') (written ++ written') := by
  obtain ⟨calls, hlog, rfl, rfl⟩ := h
  obtain ⟨calls', hlog', rfl, rfl⟩ := h'
  exact ⟨calls ++ calls', by rw [hlog', hlog, List.append_assoc], List.filterMap_append,
    List.filterMap_append⟩

namespace Context

/-- The text that is loaded for a job's header. -/
def headerText (ctx : Context) (s : BuildState) (j : Job) : String :=
  ((ctx.header (j.headerPath ctx.settings)).run.run s).1.toOption.getD ""

/-- The call that a job opens. -/
def callFor (ctx : Context) (s : BuildState) (j : Job) : OpenCall :=
  ⟨j, ctx.headerText s j, .ofJob ctx.settings j⟩

/-- The jobs and the bundler write to a region, in which no header lies that is read for a job. -/
structure Independent (ctx : Context) (jobs : List Job) (s : BuildState) (region : Location → Prop) :
    Prop where
  usual : ctx.storage = .disk
  keeping : ctx.bundler.Keeping
  bundler : ∀ r X, s.disk.Grown region X → s.disk.Grown region (ctx.bundler.reply r X).2
  targets : ∀ j ∈ jobs, ∀ l, s.disk.heading? j.target = some l → region l
  loads : ∀ j ∈ jobs, ∃ text t, (ctx.header (j.headerPath ctx.settings)).Gives s text t
  apart : ∀ j ∈ jobs, j.headerPath ctx.settings ≠ Job.noHeader →
    ∀ l, s.disk.heading? (j.headerPath ctx.settings) = some l → ¬ region l

/-- A state in which some of the jobs may have been run: the same headers are loaded. -/
structure Loaded (ctx : Context) (jobs : List Job) (s : BuildState) (region : Location → Prop)
    (t : BuildState) : Prop where
  grown : s.disk.Grown region t.disk
  header : ∀ j ∈ jobs, ((ctx.header (j.headerPath ctx.settings)).run.run t).1 = .ok (ctx.headerText s j)

variable {ctx : Context} {jobs : List Job} {s t u : BuildState} {region : Location → Prop} {j : Job}
  {p q : Path} {text text' : String}

theorem Independent.loaded (h : ctx.Independent jobs s region) : ctx.Loaded jobs s region s where
  grown := .refl s.disk region
  header j hj := by
    obtain ⟨text, t, hload⟩ := h.loads j hj
    rw [headerText, hload]
    rfl

/-! ## Loading headers -/

/-- What has to be for a header's text to be loaded. -/
theorem header_eq_ok_iff : ((ctx.header p).run.run t).1 = .ok text ↔
    p = Job.noHeader ∧ text = "" ∨ p ≠ Job.noHeader ∧ (t.shelf.get? p = some text ∨
      t.shelf.get? p = none ∧ ctx.storage.read p t.disk = .ok text) := by
  rw [run_header]
  by_cases hp : p = Job.noHeader
  · rw [if_pos hp]
    simp only [hp, Except.ok.injEq, ne_eq, not_true_eq_false, false_and, or_false, true_and]
    exact eq_comm
  · rw [if_neg hp]
    cases hget : t.shelf.get? p with
    | some known => simp [hp]
    | none =>
      cases hread : ctx.storage.read p t.disk with
      | ok text => simp [hp]
      | error f => simp [hp]

/-- Spellings of one path are read alike. -/
theorem read_congr (usual : ctx.storage = .disk) {d : Disk} (hpq : p.components = q.components)
    (hp : ctx.storage.read p d = .ok text) (hq : ctx.storage.read q d = .ok text') : text = text' := by
  obtain ⟨spot, hf, ht⟩ := Disk.textAt?_of_readText ((read_eq_ok_iff usual).1 hp)
  obtain ⟨spot', hf', ht'⟩ := Disk.textAt?_of_readText ((read_eq_ok_iff usual).1 hq)
  have hself := Disk.Grown.refl d fun _ => True
  have hheads := hself.heading?_of_find hf
  rw [Disk.heading?_congr hpq, hself.heading?_of_find hf', Option.some.injEq] at hheads
  rw [hheads, ht, Option.some.injEq] at ht'
  exact ht'

/-- What is read outside the region does not change while files are written to it. -/
theorem read_of_grown (usual : ctx.storage = .disk) {d X Y : Disk} (hX : d.Grown region X)
    (hY : d.Grown region Y) (hk : X.Keeps Y) (hout : ∀ l, d.heading? p = some l → ¬ region l)
    (h : ctx.storage.read p X = .ok text) : ctx.storage.read p Y = .ok text := by
  obtain ⟨l, content, x, b, hf, hdecode⟩ := Disk.readText_eq_ok_iff.1 ((read_eq_ok_iff usual).1 h)
  have hl := hout l (hX.heading?_of_find hf)
  obtain ⟨e, -, hf'⟩ := hk.find hf
  have hstart := (hX.get?_file_iff hl).1 (Disk.sound_of_find hf).entry_eq.symm
  have he := (Disk.sound_of_find hf').entry_eq
  rw [(hY.get?_file_iff hl).2 hstart] at he
  cases he
  exact (read_eq_ok_iff usual).2 (Disk.readText_eq_ok_iff.2 ⟨l, content, x, b, hf', hdecode⟩)

/-- Loading a header changes nothing for the others. -/
theorem header_of_header (usual : ctx.storage = .disk) (hp : (ctx.header p).Gives t text u)
    (hq : ((ctx.header q).run.run t).1 = .ok text') : ((ctx.header q).run.run u).1 = .ok text' := by
  rcases header_gives hp with ⟨-, -, rfl⟩ | ⟨-, -, rfl⟩ | ⟨-, hget, hread, rfl⟩
  · exact hq
  · exact hq
  · rw [header_eq_ok_iff] at hq ⊢
    refine hq.imp_right fun ⟨hne, hq⟩ => ⟨hne, ?_⟩
    by_cases hpq : p.components = q.components
    · have hsame : t.shelf.get? p = t.shelf.get? q := by simp only [Shelf.get?, hpq]
      rw [hsame] at hget
      rcases hq with hq | ⟨-, hq⟩
      · rw [hget] at hq
        cases hq
      · rw [Shelf.get?_put_self _ hpq, read_congr usual hpq hread hq]
        exact .inl rfl
    · rw [Shelf.get?_put_of_ne _ hpq]
      exact hq

/-! ## Opening and closing calls -/

theorem Loaded.openCall (h : ctx.Loaded jobs s region t) (usual : ctx.storage = .disk) (hj : j ∈ jobs) :
    ∃ u, (ctx.openCall j).Gives t (ctx.callFor s j) u ∧ u.disk = t.disk ∧ ctx.Loaded jobs s region u ∧
      t.Calls u [.ofJob ctx.settings j] [] := by
  rcases hload : (ctx.header (j.headerPath ctx.settings)).run.run t with ⟨r, v⟩
  have hr := h.header j hj
  rw [hload] at hr
  simp only at hr
  subst hr
  have hopen : (ctx.openCall j).run.run t = (.ok (ctx.callFor s j),
      { v with log := v.log ++ [.request (.ofJob ctx.settings j)] }) := by
    rw [run_openCall, hload]
    rfl
  obtain ⟨hdisk, calls, hlog, hadv⟩ := advances_of_openCall hopen
  refine ⟨_, hopen, hdisk, ⟨?_, fun k hk => ?_⟩, calls, hlog, ?_, ?_⟩
  · rw [hdisk]
    exact h.grown
  · have hk' := header_of_header usual hload (h.header k hk)
    rw [header_eq_ok_iff] at hk' ⊢
    exact hk'
  · cases hadv with
    | opened hreads => rcases hreads with rfl | rfl <;> rfl
  · cases hadv with
    | opened hreads => rcases hreads with rfl | rfl <;> rfl

theorem grown_of_closeCall (usual : ctx.storage = .disk) {c : OpenCall} {r : Except Stop Path}
    {d : Disk} (hg : d.Grown region (ctx.bundler.reply c.request t.disk).2)
    (hp : ∀ loc, d.heading? c.job.target = some loc → region loc)
    (h : (ctx.closeCall c).run.run t = (r, u)) : d.Grown region u.disk ∧ u.shelf = t.shelf := by
  rcases closeCall_cases h with ⟨f, -, rfl⟩ | ⟨text, w, X, hw, -, rfl⟩
  · exact ⟨hg, rfl⟩
  · exact ⟨hg.touched (Disk.touched_of_write (usual ▸ hw)) hp, rfl⟩

theorem Loaded.closeCall (h : ctx.Loaded jobs s region t) (independent : ctx.Independent jobs s region)
    (hj : j ∈ jobs) {r : Except Stop Path} (hc : (ctx.closeCall (ctx.callFor s j)).run.run t = (r, u)) :
    ctx.Loaded jobs s region u := by
  obtain ⟨hgrown, hshelf⟩ :=
    grown_of_closeCall independent.usual (independent.bundler _ _ h.grown) (independent.targets j hj) hc
  have hkeeps := (keeps_of_closeCall independent.usual independent.keeping hc).1
  refine ⟨hgrown, fun k hk => ?_⟩
  have hloads := h.header k hk
  rw [header_eq_ok_iff] at hloads ⊢
  refine hloads.imp_right fun ⟨hne, hk'⟩ => ⟨hne, ?_⟩
  rw [hshelf]
  refine hk'.imp_right fun ⟨hget, hread⟩ => ⟨hget, ?_⟩
  exact read_of_grown independent.usual h.grown hgrown hkeeps (independent.apart k hk hne) hread

end Context

end LocaleForge
