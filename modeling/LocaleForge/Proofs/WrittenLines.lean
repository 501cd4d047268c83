import LocaleForge.Proofs.FormatRun
import LocaleForge.Proofs.Hoisting
import LocaleForge.Proofs.Setting

/-!
The file that a job writes, line by line. Header and bundle are put together as texts; where the header
ends with a newline no line of one is merged with a line of the other.
-/

namespace LocaleForge

open Build Relocation

namespace Text

/-- Is empty or ends with a newline. -/
def Closed (s : String) : Prop :=
  s = "" ∨ ∃ front, s = front ++ "\n"

theorem lines_append_newline (front rest : String) :
    lines (front ++ "\n" ++ rest) = lines front ++ lines rest :=
  cut_eq_append (by simp)

theorem lines_empty : lines "" = [""] :=
  rfl

theorem lines_append_of_closed {s : String} (h : Closed s) (rest : String) :
    lines (s ++ rest) = (lines s).dropLast ++ lines rest := by
  rcases h with rfl | ⟨front, rfl⟩
  · rw [lines_empty, String.empty_append]
    rfl
  · have hend := lines_append_newline front ""
    rw [String.append_empty, lines_empty] at hend
    rw [lines_append_newline, hend, List.dropLast_concat]

theorem dropLast_lines {s : String} (h : Closed s) : (lines s).dropLast ++ [""] = lines s := by
  have hself := lines_append_of_closed h ""
  rwa [String.append_empty, lines_empty, eq_comm] at hself

/-- When no line is left the text that remains counts as one empty line. -/
theorem lines_dropLines (n : Nat) (s : String) :
    lines (dropLines n s) = if n < (lines s).length then (lines s).drop n else [""] := by
  rw [dropLines]
  split
  case isTrue hn =>
    refine lines_unlines (by simpa using hn) fun l hl => ?_
    exact sep_notMem_of_mem_cut (List.mem_of_mem_drop hl)
  case isFalse hn =>
    rw [List.drop_eq_nil_of_le (Nat.le_of_not_lt hn)]
    rfl

end Text

/-- The lines of a file whose documentation goes to the top: `rest` is what the bundle leaves. -/
def writtenLines (header : String) (rest : List String) : List String :=
  docLines (Text.lines header) ++ docLines rest ++
    "" :: (codeLines (Text.lines header).dropLast ++ codeLines rest)

/-- What a bundle leaves when its first lines are dropped. -/
def keptLines (skipped : Nat) (reply : String) : List String :=
  if skipped < (Text.lines reply).length then (Text.lines reply).drop skipped else [""]

theorem docLines_dropLast {header : String} (closed : Text.Closed header) :
    docLines (Text.lines header).dropLast = docLines (Text.lines header) := by
  conv_rhs => rw [← Text.dropLast_lines closed]
  simp [docLines]

theorem OpenCall.lines_output {c : OpenCall} (full : c.job.comments = .full)
    (closed : Text.Closed c.header) (s : Settings) (reply : String) :
    Text.lines (c.output s reply) = writtenLines c.header (keptLines c.job.skipped reply) := by
  rw [output, full, lines_relocate (by decide), layers, hoistedLines_full,
    Text.lines_append_of_closed closed, Text.lines_dropLines, docLines_append, codeLines_append,
    docLines_dropLast closed]
  rfl

namespace Context

theorem transpile_by_lines {ctx : Context} {j : Job} {s t : BuildState} {header reply : String}
    (full : j.comments = .full) (hheader : (ctx.header (j.headerPath ctx.settings)).Gives s header t)
    (closed : Text.Closed header)
    (hreply : (ctx.bundler.reply (.ofJob ctx.settings j) t.disk).1 = .ok reply) :
    let request := Request.ofJob ctx.settings j
    let ls := writtenLines header (keptLines j.skipped reply)
    let written := ctx.storage.write j.target (Text.unlines ls) (ctx.bundler.reply request t.disk).2
    Text.lines (Text.unlines ls) = ls ∧
    (ctx.transpile j).run.run s = ((written.1.map fun _ => j.target).mapError .failed, { t with
      disk := written.2
      log := t.log ++ [.request request, .reply ⟨request, some reply⟩, .write j.target] }) ∧
    (ctx.storage = .disk → ∀ u, (ctx.transpile j).Gives s j.target u →
      u.disk.readText j.target = .ok (Text.unlines ls)) := by
  intro request ls written
  let c : OpenCall := ⟨j, header, request⟩
  have hlines : Text.lines (c.output ctx.settings reply) = ls := OpenCall.lines_output full closed _ _
  have houtput : c.output ctx.settings reply = Text.unlines ls := by rw [← hlines, Text.unlines_lines]
  have hrun : (ctx.transpile j).run.run s = ((written.1.map fun _ => j.target).mapError .failed, { t with
      disk := written.2
      log := t.log ++ [.request request, .reply ⟨request, some reply⟩, .write j.target] }) := by
    rw [transpile, run_bind, run_openCall, hheader]
    simp only [run_closeCall, hreply]
    rw [houtput]
    simp only [List.append_assoc]
    rfl
  refine ⟨houtput ▸ hlines, hrun, fun usual u hu => ?_⟩
  rw [Gives, hrun] at hu
  obtain ⟨hr, rfl⟩ := Prod.mk.inj hu
  have hok : written.1 = .ok () := by
    cases hw : written.1 with
    | ok _ => rfl
    | error f =>
      rw [hw] at hr
      cases hr
  have hwrite : Storage.disk.write j.target (Text.unlines ls) (ctx.bundler.reply request t.disk).2 =
      (.ok (), written.2) := by
    rw [← usual]
    exact Prod.ext hok rfl
  obtain ⟨loc, hwrote⟩ := Disk.wrote_of_write hwrite
  exact hwrote.readText

/-- The small project with a default header that has a documentation line. -/
def documented : Disk :=
  Disk.small.set ["d"] (.file (Text.encode "//! h\nh\n") false)

set_option maxRecDepth 20000 in
theorem transpile_by_lines_small :
    let ctx := small .small "1\n2\n3\n4\n5\n//! b\nx"
    let j := Pipeline.mainJob ctx.settings .umd
    j.comments = .full ∧ Text.Closed "//! h\nh\n" ∧
    ∃ u, (ctx.transpile j).Gives (.fresh documented) j.target u ∧
      u.disk.readText j.target = .ok "//! h\n//! b\n\nh\nx" := by
  intro ctx j
  have hheader : (ctx.header (j.headerPath ctx.settings)).Gives (.fresh documented) "//! h\nh\n" _ :=
    gives_of_run (by decide +kernel)
  have closed : Text.Closed "//! h\nh\n" := .inr ⟨"//! h\nh", by decide⟩
  have hends : (ctx.transpile j).Gives (.fresh documented) j.target _ :=
    gives_of_run (by decide +kernel)
  obtain ⟨-, -, hfile⟩ := transpile_by_lines rfl hheader closed rfl
  have htext : Text.unlines (writtenLines "//! h\nh\n" (keptLines j.skipped "1\n2\n3\n4\n5\n//! b\nx")) =
      "//! h\n//! b\n\nh\nx" := by decide +kernel
  exact ⟨rfl, closed, _, hends, htext ▸ hfile rfl _ hends⟩

end Context

end LocaleForge
