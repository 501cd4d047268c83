import LocaleForge.Proofs.Moves

/-!
Where the files of a build end up. At each place lies the output of the job that was answered last
among those that head there; only where other files are written besides, nothing is said.
-/

namespace LocaleForge

/-- A bundler that leaves the tree as it is. -/
def Bundler.Quiet (b : Bundler) : Prop :=
  ∀ r d, (b.reply r d).2 = d

/-- A probe that leaves the tree as it is. -/
def Probe.Quiet (b : Probe) : Prop :=
  ∀ p d, (b.registered p d).2 = d

namespace Answered

/-- The bytes of the file that the job writes. -/
def output (settings : Settings) (a : Answered) : ByteArray :=
  Text.encode (a.call.output settings a.reply)

/-- The last answer whose job heads to a location. -/
def lastAt (d : Disk) (loc : Location) (answers : List Answered) : Option Answered :=
  answers.reverse.find? fun a => d.heading? a.job.target = some loc

variable {d : Disk} {loc : Location} {a : Answered} {answers answers' : List Answered}

theorem lastAt_append :
    lastAt d loc (answers ++ answers') = (lastAt d loc answers').or (lastAt d loc answers) := by
  rw [lastAt, List.reverse_append, List.find?_append, lastAt, lastAt]

theorem lastAt_concat_self (h : d.heading? a.job.target = some loc) :
    lastAt d loc (answers ++ [a]) = some a := by
  rw [lastAt_append]
  simp [lastAt, h]

theorem lastAt_concat_of_ne (h : d.heading? a.job.target ≠ some loc) :
    lastAt d loc (answers ++ [a]) = lastAt d loc answers := by
  rw [lastAt_append]
  simp [lastAt, h]

theorem lastAt_eq_some (h : lastAt d loc answers = some a) :
    a ∈ answers ∧ d.heading? a.job.target = some loc :=
  ⟨List.mem_reverse.1 (List.mem_of_find?_eq_some h), by simpa using List.find?_some h⟩

theorem lastAt_eq_none_iff :
    lastAt d loc answers = none ↔ ∀ a ∈ answers, d.heading? a.job.target ≠ some loc := by
  simp [lastAt]

end Answered

/-- The jobs' targets head to one region, and the other paths that are written to head to another. -/
structure Disk.Zones (d : Disk) (targets others : Path → Prop) (product aside : Location → Prop) :
    Prop where
  target : ∀ {p l}, targets p → d.heading? p = some l → product l
  other : ∀ {p l}, others p → d.heading? p = some l → aside l

/-- What is known of the tree of a course that began with the tree `d`. -/
structure Laid (settings : Settings) (d : Disk) (targets : Path → Prop)
    (product aside : Location → Prop) (c : Course) : Prop where
  grown : d.Grown (fun l => product l ∨ aside l) c.state.disk
  opened : ∀ call ∈ c.opened, targets call.job.target
  placed : ∀ a ∈ c.answered, ∃ l e b, product l ∧ d.heading? a.job.target = some l ∧
    c.state.disk.find true a.job.target = .ok ⟨l, some e, b⟩
  content : ∀ l, ¬ aside l → c.state.disk.content? l =
    match Answered.lastAt d l c.answered with
    | some a => some (a.output settings)
    | none => d.content? l

section

variable {ctx : Context} {d : Disk} {targets others : Path → Prop} {product aside : Location → Prop}
  {c c' : Course} {s t : BuildState} {o : List OpenCall} {a : List Answered}

theorem Laid.start (settings : Settings) (targets : Path → Prop) (product aside : Location → Prop)
    (s : BuildState) : Laid settings s.disk targets product aside ⟨[], [], s⟩ where
  grown := .refl _ _
  opened _ h := absurd h List.not_mem_nil
  placed _ h := absurd h List.not_mem_nil
  content _ _ := rfl

/-- A course whose tree is the same, and whose open calls write to targets as well. -/
theorem Laid.same_disk {o' : List OpenCall} (h : Laid ctx.settings d targets product aside ⟨o, a, s⟩)
    (hd : t.disk = s.disk) (ho : ∀ call ∈ o', targets call.job.target) :
    Laid ctx.settings d targets product aside ⟨o', a, t⟩ where
  grown := by
    have := h.grown
    rwa [← hd] at this
  opened := ho
  placed := by
    have := h.placed
    rwa [← hd] at this
  content := by
    have := h.content
    rwa [← hd] at this

/-- What has been placed stays placed when another file is written. -/
theorem placed_of_wrote {X Y : Disk} {p : Path} {loc : Location} {content : ByteArray}
    (hw : X.Wrote p loc content Y) {q : Path}
    (h : ∃ l e b, product l ∧ d.heading? q = some l ∧ X.find true q = .ok ⟨l, some e, b⟩) :
    ∃ l e b, product l ∧ d.heading? q = some l ∧ Y.find true q = .ok ⟨l, some e, b⟩ := by
  obtain ⟨l, e, b, hl, hh, hf⟩ := h
  obtain ⟨e', -, hf'⟩ := hw.keeps.find hf
  exact ⟨l, e', b, hl, hh, hf'⟩

/-- A file that is written besides the jobs changes nothing outside its region. -/
theorem Laid.wrote_other (zones : d.Zones targets others product aside)
    (h : Laid ctx.settings d targets product aside ⟨o, a, s⟩) {p : Path} (ho : others p)
    {loc : Location} {content : ByteArray} (hw : s.disk.Wrote p loc content t.disk) :
    Laid ctx.settings d targets product aside ⟨o, a, t⟩ where
  grown := h.grown.wrote hw (.inr (zones.other ho (hw.heading? h.grown)))
  opened := h.opened
  placed x hx := placed_of_wrote hw (h.placed x hx)
  content l hl := by
    have hne : l ≠ loc := by
      rintro rfl
      exact hl (zones.other ho (hw.heading? h.grown))
    rw [hw.content?, if_neg hne]
    exact h.content l hl

/-- An answer places the file of its job. -/
theorem Laid.wrote_target (zones : d.Zones targets others product aside) {o' : List OpenCall}
    {call : OpenCall} {reply : String} {tree : Disk}
    (h : Laid ctx.settings d targets product aside ⟨o ++ call :: o', a, s⟩) {loc : Location}
    (hw : s.disk.Wrote call.job.target loc
      (Text.encode (call.output ctx.settings reply)) t.disk) :
    Laid ctx.settings d targets product aside ⟨o ++ o', a ++ [⟨call, reply, tree⟩], t⟩ := by
  have hheading := hw.heading? h.grown
  have hproduct := zones.target (h.opened call (by simp)) hheading
  refine ⟨h.grown.wrote hw (.inl hproduct), fun x hx => h.opened x ?_, fun x hx => ?_, fun l hl => ?_⟩
  · simp only [List.mem_append, List.mem_cons] at hx ⊢
    exact hx.imp_right .inr
  · rcases List.mem_append.1 hx with hx | hx
    · exact placed_of_wrote hw (h.placed x hx)
    · obtain rfl := List.mem_singleton.1 hx
      obtain ⟨e, b, hf⟩ := hw.find
      exact ⟨loc, e, b, hproduct, hheading, hf⟩
  · let answer : Answered := ⟨call, reply, tree⟩
    have hanswer : d.heading? answer.job.target = some loc := hheading
    rw [hw.content?]
    by_cases hloc : l = loc
    · have hlast : Answered.lastAt d l (a ++ [answer]) = some answer := by
        rw [hloc]
        exact Answered.lastAt_concat_self hanswer
      rw [if_pos hloc, hlast]
      rfl
    · have hlast : Answered.lastAt d l (a ++ [answer]) = Answered.lastAt d l a := by
        refine Answered.lastAt_concat_of_ne fun hh => hloc ?_
        exact Option.some.inj (hh.symm.trans hanswer)
      rw [if_neg hloc, hlast]
      exact h.content l hl

theorem Laid.move (usual : ctx.storage = .disk) (quiet : ctx.bundler.Quiet)
    (zones : d.Zones targets others product aside) (h : Laid ctx.settings d targets product aside c)
    (hm : Move ctx targets others c c') : Laid ctx.settings d targets product aside c' := by
  cases hm with
  | notes e he => exact h.same_disk rfl h.opened
  | tells m => exact h.same_disk rfl h.opened
  | opens ht hc =>
    refine h.same_disk (Context.disk_of_openCall hc) fun x hx => ?_
    obtain ⟨-, -, hjob, -, -⟩ := Context.openCall_gives hc
    rcases List.mem_append.1 hx with hx | hx
    · exact h.opened x hx
    · rw [List.mem_singleton.1 hx, hjob]
      exact ht
  | answers hr hw =>
    obtain ⟨-, rfl⟩ := Context.answer_gives hr
    obtain ⟨⟨loc, hw⟩, -⟩ := Context.write_gives usual hw
    rw [quiet] at hw
    exact h.wrote_target zones hw
  | writes ht hw =>
    obtain ⟨⟨loc, hw⟩, -⟩ := Context.write_gives usual hw
    exact h.wrote_other zones ht hw
  | copies ht hw =>
    obtain ⟨⟨loc, content, hw⟩, -⟩ := Context.copy_gives usual hw
    exact h.wrote_other zones ht hw

/-- However the build goes on, what lies where is what the answers so far say. -/
theorem Laid.moves (usual : ctx.storage = .disk) (quiet : ctx.bundler.Quiet)
    (zones : d.Zones targets others product aside) (h : Laid ctx.settings d targets product aside c)
    (hm : Moves ctx targets others c c') : Laid ctx.settings d targets product aside c' := by
  induction hm with
  | refl => exact h
  | tail _ step ih => exact ih.move usual quiet zones step

end

end LocaleForge
