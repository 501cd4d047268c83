import LocaleForge.Build.Transpile
import LocaleForge.Proofs.Success
import LocaleForge.Proofs.Writing

/-!
What the calls of a build and the two parts of a job do, whether they succeed or fail: the result, and
the state that is left.
-/

namespace LocaleForge

namespace Disk

variable {d X Y : Disk} {region : Location → Prop} {p : Path} {r : Except Failure Unit}

/-- What is left when a file is written or copied: the directories above it are made, and the file is
there unless the attempt has failed. -/
def Touched (X : Disk) (p : Path) (Y : Disk) : Prop :=
  Y = (Storage.makeRoom p X).2 ∨
    ∃ s content, (Storage.makeRoom p X).2.writable p = .ok s ∧
      (Storage.makeRoom p X).2.Puts s.location content Y

/-- The file is changed, or it is a failure and only room has been made. -/
theorem cases_of_place {a : Activity} {change : Disk → Except Fault Disk}
    (h : Storage.place p a change X = (r, Y)) :
    r = .ok () ∧ change (Storage.makeRoom p X).2 = .ok Y ∨
      (∃ f, r = .error f) ∧ Y = (Storage.makeRoom p X).2 := by
  rw [Storage.place] at h
  split at h
  case h_1 mid hr =>
    cases h
    rw [hr]
    exact .inr ⟨⟨_, rfl⟩, rfl⟩
  case h_2 mid hr =>
    rw [hr]
    split at h
    case h_1 hc =>
      cases h
      exact .inl ⟨rfl, hc⟩
    case h_2 =>
      cases h
      exact .inr ⟨⟨_, rfl⟩, rfl⟩

theorem touched_of_write {text : String} (h : Storage.disk.write p text X = (r, Y)) : X.Touched p Y := by
  rcases cases_of_place h with ⟨-, hc⟩ | ⟨-, he⟩
  · obtain ⟨s, hw, hputs⟩ := puts_of_writeBytes hc
    exact .inr ⟨s, _, hw, hputs⟩
  · exact .inl he

theorem touched_of_copy {source : Path} (h : Storage.disk.copy source p X = (r, Y)) : X.Touched p Y := by
  rcases cases_of_place h with ⟨-, hc⟩ | ⟨-, he⟩
  · exact .inr (puts_of_copy hc)
  · exact .inl he

/-- Directories are made, and maybe the file is written. -/
theorem Touched.cases (h : X.Touched p Y) :
    X.Extends Y ∧ Y.workDir = X.workDir ∨ ∃ loc content, X.Wrote p loc content Y := by
  rcases h with rfl | ⟨s, content, hw, hputs⟩
  · exact .inl ⟨extends_makeRoom p X, workDir_makeRoom p X⟩
  · exact .inr ⟨s.location, content,
      ⟨_, s, extends_makeRoom p X, workDir_makeRoom p X, hw, rfl, hputs⟩⟩

theorem Extends.keeps (h : X.Extends Y) (hw : Y.workDir = X.workDir) : X.Keeps Y where
  workDir := hw
  entry {l e} he := by
    rcases h l with hy | ⟨hn, -⟩
    · exact ⟨e, hy.trans he, .rfl⟩
    · rw [he] at hn
      cases hn

theorem Touched.keeps (h : X.Touched p Y) : X.Keeps Y := by
  rcases h.cases with ⟨hext, hdir⟩ | ⟨loc, content, hw⟩
  · exact hext.keeps hdir
  · exact hw.keeps

theorem Grown.touched (h : d.Grown region X) (ht : X.Touched p Y)
    (hp : ∀ loc, d.heading? p = some loc → region loc) : d.Grown region Y := by
  rcases ht.cases with ⟨hext, hdir⟩ | ⟨loc, content, hw⟩
  · exact h.extends hext hdir
  · exact h.wrote hw (hp loc (hw.heading? h))

theorem isFile_iff : X.isFile p = true ↔
    ∃ loc content x b, X.find true p = .ok ⟨loc, some (.file content x), b⟩ := by
  rw [isFile, entryAt?]
  constructor
  · intro h
    split at h
    case h_1 s hs =>
      obtain ⟨loc, e, b⟩ := s
      rcases e with _ | ⟨content, x⟩ | _ | target
      · cases h
      · exact ⟨loc, content, x, b, hs⟩
      · cases h
      · cases h
    case h_2 => cases h
  · rintro ⟨loc, content, x, b, h⟩
    rw [h]
    rfl

/-- A path that leads to a file still leads to one in a larger tree. -/
theorem Keeps.isFile (h : X.Keeps Y) (hp : X.isFile p = true) : Y.isFile p = true := by
  obtain ⟨loc, content, x, b, hf⟩ := isFile_iff.1 hp
  obtain ⟨e, hl, hf'⟩ := h.find hf
  obtain ⟨content', x', rfl⟩ := hl.of_file
  exact isFile_iff.2 ⟨loc, content', x', b, hf'⟩

theorem Wrote.isFile {loc : Location} {content : ByteArray} (h : X.Wrote p loc content Y) :
    Y.isFile p = true := by
  obtain ⟨e, b, hf⟩ := h.find
  have hc := h.content? loc
  rw [if_pos rfl] at hc
  obtain ⟨x, hg⟩ := get?_of_content? hc
  have he := (sound_of_find hf).entry_eq
  rw [hg] at he
  cases he
  exact isFile_iff.2 ⟨loc, content, x, b, hf⟩

end Disk

namespace Event

/-- The request that is made by a call. -/
def request? : Event → Option Request
  | .request r => some r
  | _ => none

/-- The path that is written to by a call. -/
def written? : Event → Option Path
  | .write p => some p
  | _ => none

def isRead : Event → Bool
  | .read _ => true
  | _ => false

end Event

namespace Build

variable {α β : Type} {s t : BuildState}

theorem run_pure (a : α) (s : BuildState) : (pure a : Build α).run.run s = (.ok a, s) :=
  rfl

theorem run_get (s : BuildState) : (get : Build BuildState).run.run s = (.ok s, s) :=
  rfl

theorem run_note (e : Event) (s : BuildState) :
    (note e).run.run s = (.ok (), { s with log := s.log ++ [e] }) :=
  rfl

theorem run_ofResult (r : Except Failure α) (s : BuildState) :
    (ofResult r).run.run s = (r.mapError .failed, s) := by
  cases r with
  | ok a => rfl
  | error f => rfl

theorem run_query (f : Disk → Except Failure α) (s : BuildState) :
    (query f).run.run s = ((f s.disk).mapError .failed, s) := by
  rw [query, run_bind, run_get]
  exact run_ofResult _ s

theorem run_alter (f : Disk → Except Failure α × Disk) (s : BuildState) :
    (alter f).run.run s = ((f s.disk).1.mapError .failed, { s with disk := (f s.disk).2 }) := by
  rw [alter, run_bind, run_get]
  exact run_ofResult _ _

/-- What follows a computation that has stopped is not run. -/
theorem run_bind_of_error {b : Build α} {f : α → Build β} {e : Stop} (h : b.run.run s = (.error e, t)) :
    (b >>= f).run.run s = (.error e, t) := by
  rw [run_bind, h]

theorem run_bind_of_ok {b : Build α} {f : α → Build β} {a : α} (h : b.run.run s = (.ok a, t)) :
    (b >>= f).run.run s = (f a).run.run t := by
  rw [run_bind, h]

end Build

namespace Context

open Build

variable {ctx : Context}

theorem run_hasEntry (ctx : Context) (p : Path) (s : BuildState) :
    (ctx.hasEntry p).run.run s = (.ok (ctx.storage.hasEntry p s.disk), s) :=
  rfl

theorem run_copy (ctx : Context) (source target : Path) (s : BuildState) :
    (ctx.copy source target).run.run s = ((ctx.storage.copy source target s.disk).1.mapError .failed,
      { s with disk := (ctx.storage.copy source target s.disk).2, log := s.log ++ [.copy source target] }) := by
  rw [copy, run_bind, run_note]
  exact run_alter _ _

theorem run_expand (ctx : Context) (root : Path) (pattern : String) (s : BuildState) :
    (ctx.expand root pattern).run.run s = ((ctx.storage.expand root pattern s.disk).mapError .failed,
      { s with log := s.log ++ [.expand root pattern] }) := by
  rw [expand, run_bind, run_note]
  exact run_query _ _

/-- A header is empty, or known, or read and then known. -/
theorem run_header (p : Path) (s : BuildState) :
    (ctx.header p).run.run s =
      if p = Job.noHeader then (.ok "", s)
      else match s.shelf.get? p with
        | some text => (.ok text, s)
        | none => match ctx.storage.read p s.disk with
          | .ok text => (.ok text, { s with shelf := s.shelf.put p text, log := s.log ++ [.read p] })
          | .error f => (.error (.failed f), { s with log := s.log ++ [.read p] }) := by
  rw [header]
  split
  case isTrue => rfl
  case isFalse =>
    rw [run_bind, run_get]
    cases hget : s.shelf.get? p with
    | some text => simp only [hget, run_pure]
    | none =>
      simp only [hget, read, run_bind, run_note, run_query]
      cases ctx.storage.read p s.disk with
      | ok text => rfl
      | error f => rfl

theorem run_openCall (j : Job) (s : BuildState) :
    (ctx.openCall j).run.run s =
      match (ctx.header (j.headerPath ctx.settings)).run.run s with
      | (.ok text, t) => (.ok ⟨j, text, .ofJob ctx.settings j⟩,
          { t with log := t.log ++ [.request (.ofJob ctx.settings j)] })
      | (.error e, t) => (.error e, t) := by
  rw [openCall, run_bind]
  rcases (ctx.header (j.headerPath ctx.settings)).run.run s with ⟨r, t⟩
  cases r with
  | ok text => rfl
  | error e => rfl

/-- The bundler fails, or its answer is there and the file is written or not. -/
theorem run_closeCall (c : OpenCall) (s : BuildState) :
    (ctx.closeCall c).run.run s =
      match (ctx.bundler.reply c.request s.disk).1 with
      | .ok text =>
        let w := ctx.storage.write c.job.target (c.output ctx.settings text)
          (ctx.bundler.reply c.request s.disk).2
        ((w.1.map fun _ => c.job.target).mapError .failed, { s with
          disk := w.2
          log := s.log ++ [.reply ⟨c.request, some text⟩, .write c.job.target] })
      | .error f => (.error (.failed f), { s with
          disk := (ctx.bundler.reply c.request s.disk).2
          log := s.log ++ [.reply ⟨c.request, none⟩] }) := by
  rw [closeCall, run_bind, answer, run_bind, run_get]
  simp only [run_bind, run_note, run_alter]
  cases hr : (ctx.bundler.reply c.request s.disk).1 with
  | error f => rfl
  | ok text =>
    simp only [mapError_ok, write, run_bind, run_note, run_alter]
    cases hw : (ctx.storage.write c.job.target (c.output ctx.settings text)
        (ctx.bundler.reply c.request s.disk).2).1 with
    | ok u =>
      simp only [mapError_ok, run_pure, Except.map, Except.toOption, List.append_assoc,
        List.cons_append, List.nil_append]
    | error f =>
      simp only [mapError_error, Except.map, Except.toOption, List.append_assoc, List.cons_append,
        List.nil_append]

/-- A call is opened with the text of its header, which is empty, or known, or read and then known; or the header
cannot be read. -/
theorem openCall_cases {j : Job} {r : Except Stop OpenCall} {s t : BuildState}
    (h : (ctx.openCall j).run.run s = (r, t)) :
    let p := j.headerPath ctx.settings
    (∃ text, r = .ok ⟨j, text, .ofJob ctx.settings j⟩ ∧
      ((p = Job.noHeader ∧ text = "" ∨ p ≠ Job.noHeader ∧ s.shelf.get? p = some text) ∧
          t = { s with log := s.log ++ [.request (.ofJob ctx.settings j)] } ∨
        p ≠ Job.noHeader ∧ s.shelf.get? p = none ∧ t = { s with
          shelf := s.shelf.put p text
          log := s.log ++ [.read p, .request (.ofJob ctx.settings j)] })) ∨
    ∃ f, r = .error (.failed f) ∧ t = { s with log := s.log ++ [.read p] } := by
  intro p
  rw [run_openCall, run_header] at h
  by_cases hp : p = Job.noHeader
  · rw [if_pos hp] at h
    cases h
    exact .inl ⟨"", rfl, .inl ⟨.inl ⟨hp, rfl⟩, rfl⟩⟩
  · rw [if_neg hp] at h
    cases hget : s.shelf.get? p with
    | some text =>
      rw [hget] at h
      cases h
      exact .inl ⟨text, rfl, .inl ⟨.inr ⟨hp, rfl⟩, rfl⟩⟩
    | none =>
      rw [hget] at h
      cases hread : ctx.storage.read p s.disk with
      | ok text =>
        simp only [p, hread, List.append_assoc] at h
        cases h
        exact .inl ⟨text, rfl, .inr ⟨hp, rfl, rfl⟩⟩
      | error f =>
        simp only [p, hread] at h
        cases h
        exact .inr ⟨f, rfl, rfl⟩

/-- The bundler fails, or it answers, and what is made of the answer is written. -/
theorem closeCall_cases {c : OpenCall} {r : Except Stop Path} {s t : BuildState}
    (h : (ctx.closeCall c).run.run s = (r, t)) :
    (∃ f, r = .error (.failed f) ∧ t = { s with
      disk := (ctx.bundler.reply c.request s.disk).2
      log := s.log ++ [.reply ⟨c.request, none⟩] }) ∨
    ∃ text w d, ctx.storage.write c.job.target (c.output ctx.settings text)
        (ctx.bundler.reply c.request s.disk).2 = (w, d) ∧
      (w = .ok () ∧ r = .ok c.job.target ∨ ∃ f, w = .error f ∧ r = .error (.failed f)) ∧ t = { s with
        disk := d
        log := s.log ++ [.reply ⟨c.request, some text⟩, .write c.job.target] } := by
  rw [run_closeCall] at h
  cases hr : (ctx.bundler.reply c.request s.disk).1 with
  | error f =>
    rw [hr] at h
    cases h
    exact .inl ⟨f, rfl, rfl⟩
  | ok text =>
    simp only [hr] at h
    rcases hw : ctx.storage.write c.job.target (c.output ctx.settings text)
        (ctx.bundler.reply c.request s.disk).2 with ⟨w, d⟩
    rw [hw] at h
    cases h
    refine .inr ⟨text, w, d, hw, ?_, rfl⟩
    cases w with
    | ok u => exact .inl ⟨rfl, rfl⟩
    | error f => exact .inr ⟨f, rfl, rfl⟩

end Context

end LocaleForge
