import LocaleForge.Build.Transpile
import LocaleForge.Proofs.Success
import LocaleForge.Proofs.Writing

/-!
What the calls of a build do when they succeed, with the store that works on the tree of files.
-/

namespace LocaleForge.Context

open Build

variable {ctx : Context} {s t : BuildState} {p : Path}

theorem read_gives {text : String} (h : (ctx.read p).Gives s text t) :
    ctx.storage.read p s.disk = .ok text ∧ t = { s with log := s.log ++ [.read p] } := by
  simp only [read, gives_bind_iff, gives_note_iff, gives_query_iff] at h
  obtain ⟨-, _, rfl, hr, rfl⟩ := h
  exact ⟨hr, rfl⟩

theorem read_eq_ok_iff (usual : ctx.storage = .disk) {d : Disk} {text : String} :
    ctx.storage.read p d = .ok text ↔ d.readText p = .ok text := by
  rw [usual]
  exact mapError_eq_ok_iff

theorem expand_gives_iff (usual : ctx.storage = .disk) {root : Path} {pattern : String}
    {files : List String} : (ctx.expand root pattern).Gives s files t ↔
      s.disk.expand root pattern = .ok files ∧
        t = { s with log := s.log ++ [.expand root pattern] } := by
  simp only [expand, gives_bind_iff, gives_note_iff, gives_query_iff, usual, Storage.disk,
    mapError_eq_ok_iff]
  constructor
  · rintro ⟨-, _, rfl, hr, rfl⟩
    exact ⟨hr, rfl⟩
  · rintro ⟨hr, rfl⟩
    exact ⟨(), _, rfl, hr, rfl⟩

theorem expand_gives (usual : ctx.storage = .disk) {root : Path} {pattern : String}
    {files : List String} (h : (ctx.expand root pattern).Gives s files t) :
    s.disk.expand root pattern = .ok files ∧
      t = { s with log := s.log ++ [.expand root pattern] } :=
  (expand_gives_iff usual).1 h

theorem write_gives (usual : ctx.storage = .disk) {text : String} {u : Unit}
    (h : (ctx.write p text).Gives s u t) :
    (∃ loc, s.disk.Wrote p loc (Text.encode text) t.disk) ∧
      t = { s with disk := t.disk, log := s.log ++ [.write p] } := by
  simp only [write, gives_bind_iff, gives_note_iff, gives_alter_iff, usual] at h
  obtain ⟨-, _, rfl, hr, rfl⟩ := h
  exact ⟨Disk.wrote_of_write (Prod.ext hr rfl), rfl⟩

theorem copy_gives (usual : ctx.storage = .disk) {source : Path} {u : Unit}
    (h : (ctx.copy source p).Gives s u t) :
    (∃ loc content, s.disk.Wrote p loc content t.disk) ∧
      t = { s with disk := t.disk, log := s.log ++ [.copy source p] } := by
  simp only [copy, gives_bind_iff, gives_note_iff, gives_alter_iff, usual] at h
  obtain ⟨-, _, rfl, hr, rfl⟩ := h
  exact ⟨Disk.wrote_of_copy (Prod.ext hr rfl), rfl⟩

/-- A header text comes from the shelf, or from its file, which puts it on the shelf. -/
theorem header_gives {text : String} (h : (ctx.header p).Gives s text t) :
    (p = Job.noHeader ∧ text = "" ∧ t = s) ∨
    (p ≠ Job.noHeader ∧ s.shelf.get? p = some text ∧ t = s) ∨
    (p ≠ Job.noHeader ∧ s.shelf.get? p = none ∧ ctx.storage.read p s.disk = .ok text ∧
      t = { s with shelf := s.shelf.put p text, log := s.log ++ [.read p] }) := by
  rw [header] at h
  split at h
  case isTrue hp =>
    obtain ⟨rfl, rfl⟩ := gives_pure_iff.1 h
    exact .inl ⟨hp, rfl, rfl⟩
  case isFalse hp =>
    obtain ⟨_, _, hget, h⟩ := gives_bind_iff.1 h
    obtain ⟨rfl, rfl⟩ := gives_get_iff.1 hget
    split at h
    case h_1 known hknown =>
      obtain ⟨rfl, rfl⟩ := gives_pure_iff.1 h
      exact .inr (.inl ⟨hp, hknown, rfl⟩)
    case h_2 hnone =>
      simp only [gives_bind_iff, gives_modify_iff, gives_pure_iff] at h
      obtain ⟨_, _, hread, -, _, rfl, rfl, rfl⟩ := h
      obtain ⟨hr, rfl⟩ := read_gives hread
      exact .inr (.inr ⟨hp, hnone, hr, rfl⟩)

theorem openCall_gives {j : Job} {c : OpenCall} (h : (ctx.openCall j).Gives s c t) :
    ∃ u, (ctx.header (j.headerPath ctx.settings)).Gives s c.header u ∧ c.job = j ∧
      c.request = Request.ofJob ctx.settings j ∧
      t = { u with log := u.log ++ [.request c.request] } := by
  simp only [openCall, gives_bind_iff, gives_note_iff, gives_pure_iff] at h
  obtain ⟨header, u, hu, -, _, rfl, rfl, rfl⟩ := h
  exact ⟨u, hu, rfl, rfl, rfl⟩

theorem disk_of_header {text : String} (h : (ctx.header p).Gives s text t) : t.disk = s.disk := by
  rcases header_gives h with ⟨-, -, rfl⟩ | ⟨-, -, rfl⟩ | ⟨-, -, -, rfl⟩ <;> rfl

theorem disk_of_openCall {j : Job} {c : OpenCall} (h : (ctx.openCall j).Gives s c t) :
    t.disk = s.disk := by
  obtain ⟨u, hu, -, -, rfl⟩ := openCall_gives h
  have hdisk := disk_of_header hu
  exact hdisk

theorem answer_gives {r : Request} {reply : String} (h : (ctx.answer r).Gives s reply t) :
    (ctx.bundler.reply r s.disk).1 = .ok reply ∧
      t = { s with
        disk := (ctx.bundler.reply r s.disk).2, log := s.log ++ [.reply ⟨r, some reply⟩] } := by
  simp only [answer, gives_bind_iff, gives_get_iff, gives_note_iff, gives_alter_iff] at h
  obtain ⟨_, _, ⟨rfl, rfl⟩, -, _, rfl, hr, rfl⟩ := h
  refine ⟨hr, ?_⟩
  rw [hr]
  rfl

theorem closeCall_gives {c : OpenCall} {target : Path} (h : (ctx.closeCall c).Gives s target t) :
    target = c.job.target ∧ ∃ reply u, (ctx.answer c.request).Gives s reply u ∧
      (ctx.write c.job.target (c.output ctx.settings reply)).Gives u () t := by
  simp only [closeCall, gives_bind_iff, gives_pure_iff] at h
  obtain ⟨reply, u, hr, ⟨⟩, _, hw, rfl, rfl⟩ := h
  exact ⟨rfl, reply, u, hr, hw⟩

end LocaleForge.Context
