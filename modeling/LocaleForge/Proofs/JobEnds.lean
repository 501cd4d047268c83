import LocaleForge.Proofs.Ancestors
import LocaleForge.Proofs.Placing
import LocaleForge.Proofs.Setting

/-!
How a job ends. Its calls come in one order, and the first that fails ends it with its own failure. Only
the last call touches the tree: it writes the job's target, and makes the missing directories on the
way to it.
-/

namespace LocaleForge

namespace Disk

variable {X Y : Disk} {p : Path} {l : Location} {content : ByteArray} {f : Failure}

/-- A directory was missing and has been made for the sake of a path: the path or one above it names
it. If the path goes down only, the directory lies above the place that the path leads to. -/
structure MadeFor (X : Disk) (p : Path) (Y : Disk) (l : Location) : Prop where
  missing : X.get? l = none
  made : Y.get? l = some .directory
  onWay : X.OnWay p l
  above : ".." ∉ Text.cut '/' p.text → ∃ loc, X.heading? p = some loc ∧ l <+: loc ∧ l ≠ loc

/-- Nothing is different but that directories have been made for the sake of a path. -/
def Widened (X : Disk) (p : Path) (Y : Disk) : Prop :=
  ∀ l, Y.get? l = X.get? l ∨ X.MadeFor p Y l

/-- A file lies where a path leads, and nothing else is different but that directories have been made
for its sake. -/
structure Delivered (X : Disk) (p : Path) (content : ByteArray) (Y : Disk) : Prop where
  file : ∃ loc, X.heading? p = some loc ∧ Y.content? loc = some content ∧
    (∃ e b, Y.find true p = .ok ⟨loc, some e, b⟩) ∧
    ∀ l, l ≠ loc → Y.get? l = X.get? l ∨ X.MadeFor p Y l

theorem LinkFree.widened_makeRoom (h : X.LinkFree) (p : Path) :
    X.Widened p (Storage.makeRoom p X).2 := by
  intro l
  rcases extends_makeRoom p X l with hsame | ⟨hnone, hdir⟩
  · exact .inl hsame
  · have hway : X.OnWay p l :=
      made_of_makeRoom (Grown.refl X fun _ => False).sameLinks hnone (by simp [hdir])
    exact .inr ⟨hnone, hdir, hway, hway.above h⟩

theorem LinkFree.widened_of_write (h : X.LinkFree) {text : String}
    (hw : Storage.disk.write p text X = (.error f, Y)) : X.Widened p Y := by
  rcases cases_of_place hw with ⟨hok, -⟩ | ⟨-, rfl⟩
  · cases hok
  · exact h.widened_makeRoom p

theorem LinkFree.delivered_of_write (h : X.LinkFree) {text : String} {u : Unit}
    (hw : Storage.disk.write p text X = (.ok u, Y)) : X.Delivered p (Text.encode text) Y := by
  rcases cases_of_place hw with ⟨-, hchange⟩ | ⟨⟨f, hfailed⟩, -⟩
  · obtain ⟨s, hwritable, hputs⟩ := puts_of_writeBytes hchange
    have hwrote : X.Wrote p s.location (Text.encode text) Y :=
      ⟨_, s, extends_makeRoom p X, workDir_makeRoom p X, hwritable, rfl, hputs⟩
    have hcontent := hwrote.content? s.location
    rw [if_pos rfl] at hcontent
    refine ⟨s.location, hwrote.heading? (.refl X fun _ => False), hcontent, hwrote.find, fun l hl => ?_⟩
    -- Apart from the file itself the tree is the one in which room has been made for it.
    have hroom := hputs.get?_of_ne hl
    rcases h.widened_makeRoom p l with hsame | hmade
    · exact .inl (hroom.trans hsame)
    · exact .inr { hmade with made := hroom.trans hmade.made }
  · cases hfailed

end Disk

/-- The header text of a job, with the calls that it takes to get it: at most one read. -/
inductive Context.LoadsHeader (ctx : Context) (p : Path) (s : BuildState) : String → List Event → Prop
  | none (h : p = Job.noHeader) : LoadsHeader ctx p s "" []
  | known {text : String} (h : p ≠ Job.noHeader) (hs : s.shelf.get? p = some text) :
      LoadsHeader ctx p s text []
  | read {text : String} (h : p ≠ Job.noHeader) (hs : s.shelf.get? p = none)
      (hr : ctx.storage.read p s.disk = .ok text) : LoadsHeader ctx p s text [.read p]

/-- How a job ends that begins in a state: its result, the calls that it has made and the tree that it
leaves. -/
inductive Job.Ends (ctx : Context) (j : Job) (s : BuildState) :
    Except Stop Path → List Event → Disk → Prop
  | noHeader {f : Failure} (h : j.headerPath ctx.settings ≠ noHeader)
      (hs : s.shelf.get? (j.headerPath ctx.settings) = none)
      (hr : ctx.storage.read (j.headerPath ctx.settings) s.disk = .error f) :
      Ends ctx j s (.error (.failed f)) [.read (j.headerPath ctx.settings)] s.disk
  | noReply {header : String} {reads : List Event} {f : Failure}
      (loads : ctx.LoadsHeader (j.headerPath ctx.settings) s header reads)
      (reply : (ctx.bundler.reply (.ofJob ctx.settings j) s.disk).1 = .error f) :
      Ends ctx j s (.error (.failed f))
        (reads ++ [.request (.ofJob ctx.settings j), .reply ⟨.ofJob ctx.settings j, none⟩]) s.disk
  | notWritten {header text : String} {reads : List Event} {f : Failure} {Y : Disk}
      (loads : ctx.LoadsHeader (j.headerPath ctx.settings) s header reads)
      (reply : (ctx.bundler.reply (.ofJob ctx.settings j) s.disk).1 = .ok text)
      (write : ctx.storage.write j.target
        (OpenCall.output ⟨j, header, .ofJob ctx.settings j⟩ ctx.settings text) s.disk = (.error f, Y))
      (widened : s.disk.Widened j.target Y) :
      Ends ctx j s (.error (.failed f)) (reads ++ [.request (.ofJob ctx.settings j),
        .reply ⟨.ofJob ctx.settings j, some text⟩, .write j.target]) Y
  | written {header text : String} {reads : List Event} {Y : Disk}
      (loads : ctx.LoadsHeader (j.headerPath ctx.settings) s header reads)
      (reply : (ctx.bundler.reply (.ofJob ctx.settings j) s.disk).1 = .ok text)
      (delivered : s.disk.Delivered j.target
        (Text.encode (OpenCall.output ⟨j, header, .ofJob ctx.settings j⟩ ctx.settings text)) Y) :
      Ends ctx j s (.ok j.target) (reads ++ [.request (.ofJob ctx.settings j),
        .reply ⟨.ofJob ctx.settings j, some text⟩, .write j.target]) Y

namespace Context

open Build

variable {ctx : Context} {p : Path} {j : Job} {s t : BuildState} {r : Except Stop Path}

theorem header_cases (ctx : Context) (p : Path) (s : BuildState) :
    (∃ text reads u, ctx.LoadsHeader p s text reads ∧ (ctx.header p).Gives s text u ∧
      u.disk = s.disk ∧ u.log = s.log ++ reads) ∨
    p ≠ Job.noHeader ∧ s.shelf.get? p = none ∧ ∃ f, ctx.storage.read p s.disk = .error f ∧
      (ctx.header p).run.run s = (.error (.failed f), { s with log := s.log ++ [.read p] }) := by
  have hrun := ctx.run_header p s
  split at hrun
  case isTrue hp => exact .inl ⟨"", [], s, .none hp, hrun, rfl, (List.append_nil _).symm⟩
  case isFalse hp =>
    cases hknown : s.shelf.get? p with
    | some text =>
      rw [hknown] at hrun
      exact .inl ⟨text, [], s, .known hp hknown, hrun, rfl, (List.append_nil _).symm⟩
    | none =>
      rw [hknown] at hrun
      cases hread : ctx.storage.read p s.disk with
      | ok text =>
        rw [hread] at hrun
        exact .inl ⟨text, [.read p], _, .read hp hknown hread, hrun, rfl, rfl⟩
      | error f =>
        rw [hread] at hrun
        exact .inr ⟨hp, rfl, f, rfl, hrun⟩

theorem transpile_ends (usual : ctx.storage = .disk) (quiet : ctx.bundler.Quiet)
    (links : s.disk.LinkFree) (h : (ctx.transpile j).run.run s = (r, t)) :
    ∃ calls, t.log = s.log ++ calls ∧ j.Ends ctx s r calls t.disk := by
  rw [transpile, run_bind, run_openCall] at h
  rcases ctx.header_cases (j.headerPath ctx.settings) s with
    ⟨header, reads, u, loads, hheader, hdisk, hlog⟩ | ⟨hp, hs, f, hread, hheader⟩
  · rw [hheader] at h
    simp only [run_closeCall, hdisk] at h
    cases hreply : (ctx.bundler.reply (.ofJob ctx.settings j) s.disk).1 with
    | error f =>
      rw [hreply, quiet] at h
      cases h
      exact ⟨_, by simp only [hlog, List.append_assoc, List.cons_append, List.nil_append],
        .noReply loads hreply⟩
    | ok text =>
      rw [hreply, quiet, usual] at h
      simp only at h
      rcases hwrite : Storage.disk.write j.target
        (OpenCall.output ⟨j, header, .ofJob ctx.settings j⟩ ctx.settings text) s.disk with ⟨w, Y⟩
      rw [hwrite] at h
      cases w with
      | error f =>
        cases h
        exact ⟨_, by simp only [hlog, List.append_assoc, List.cons_append, List.nil_append],
          .notWritten loads hreply (usual ▸ hwrite) (links.widened_of_write hwrite)⟩
      | ok u =>
        cases h
        exact ⟨_, by simp only [hlog, List.append_assoc, List.cons_append, List.nil_append],
          .written loads hreply (links.delivered_of_write hwrite)⟩
  · rw [hheader] at h
    cases h
    exact ⟨_, rfl, .noHeader hp hs hread⟩

theorem LoadsHeader.of_noHeader {header : String} {reads : List Event}
    (h : ctx.LoadsHeader p s header reads) (hp : p = Job.noHeader) : header = "" ∧ reads = [] := by
  cases h with
  | none => exact ⟨rfl, rfl⟩
  | known hne => exact absurd hp hne
  | read hne => exact absurd hp hne

end Context

theorem Job.Ends.delivered {ctx : Context} {j : Job} {s : BuildState} {p : Path} {calls : List Event}
    {Y : Disk} (h : j.Ends ctx s (.ok p) calls Y) :
    p = j.target ∧ ∃ header reads text, ctx.LoadsHeader (j.headerPath ctx.settings) s header reads ∧
      (ctx.bundler.reply (.ofJob ctx.settings j) s.disk).1 = .ok text ∧
      s.disk.Delivered j.target
        (Text.encode (OpenCall.output ⟨j, header, .ofJob ctx.settings j⟩ ctx.settings text)) Y := by
  cases h with
  | written loads reply delivered => exact ⟨rfl, _, _, _, loads, reply, delivered⟩

theorem Disk.linkFree_small : small.LinkFree :=
  linkFree_of_entries (by decide +kernel)

namespace Context

open Build

theorem transpile_ends_small :
    let ctx := small .small "b"
    let j := Pipeline.mainJob ctx.settings .esm
    ctx.storage = .disk ∧ ctx.bundler.Quiet ∧ Disk.small.LinkFree ∧
      ∃ t, (ctx.transpile j).Gives (.fresh .small) j.target t ∧
        Disk.small.Delivered j.target (Text.encode "\nb") t.disk := by
  intro ctx j
  have quiet : ctx.bundler.Quiet := fun _ _ => rfl
  obtain ⟨t, hgives⟩ : ∃ t, (ctx.transpile j).Gives (.fresh .small) j.target t :=
    ⟨_, gives_of_run (by decide +kernel)⟩
  refine ⟨rfl, quiet, Disk.linkFree_small, t, hgives, ?_⟩
  obtain ⟨calls, -, hjob⟩ := transpile_ends rfl quiet Disk.linkFree_small hgives
  obtain ⟨-, header, reads, text, loads, reply, delivered⟩ := hjob.delivered
  obtain ⟨rfl, -⟩ := loads.of_noHeader (by decide)
  obtain rfl : "b" = text := Except.ok.inj reply
  have houtput : OpenCall.output ⟨j, "", .ofJob ctx.settings j⟩ ctx.settings "b" = "\nb" := by
    decide +kernel
  rw [houtput] at delivered
  exact delivered

end Context

end LocaleForge
