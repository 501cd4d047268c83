import LocaleForge.Proofs.Settled

/-!
Several formats one after another. The inputs stay as they are, so each format runs the same jobs in
each build, and the last answer for a place is settled by its job.
-/

namespace LocaleForge

namespace Pipeline

/-- The jobs of the stages of a format for the inputs in a tree. -/
def jobsFor (s : Settings) (d : Disk) (f : Format) : List (List Job) :=
  formatJobs s f (d.sources s s.localesPattern) (s.testPatterns.map (d.sources s))

end Pipeline

section

variable {ctx : Context} {d Z : Disk} {src : Location} {targets others : Path → Prop}
  {product aside whole : Location → Prop} {c : Course} {s t u : BuildState} {f : Format}
  {a : List Answered} {pattern : String} {files : List String}

/-! ## The same inputs all the time -/

/-- The files that are found on the way are those of the start. -/
theorem Found.eq_sources (usual : ctx.storage = .disk) (quiet : ctx.bundler.Quiet)
    (zones : Z.Zones targets others product aside) (inputs : d.Inputs ctx.settings src whole)
    (hz : d.Grown whole Z) (hregion : ∀ l, product l ∨ aside l → whole l)
    (laid : Laid ctx.settings Z targets product aside c)
    (hp : pattern ∈ ctx.settings.localesPattern :: ctx.settings.testPatterns)
    (h : Found ctx targets others c pattern files) : files = d.sources ctx.settings pattern := by
  obtain ⟨a, u, hm, he⟩ := h
  have hgrown := (laid.moves usual quiet zones hm).grown
  exact inputs.sources_eq (hz.trans hgrown (fun _ h => h) hregion) hp he

namespace Pipeline

open Build

/-- The stages of formats run the jobs for the inputs, each format its own. -/
theorem sections_of_formats (usual : ctx.storage = .disk) (quiet : ctx.bundler.Quiet)
    (hmain : Path.Plain ctx.settings.mainEntry)
    (ht : ∀ f {rel}, Path.Plain rel → targets ((ctx.settings.formatDir f).join rel))
    (ho : ∀ {rel}, Path.Plain rel → others (ctx.settings.tmpDir.join rel))
    (zones : u.disk.Zones targets others product aside)
    (inputs : d.Inputs ctx.settings src whole) (hz : d.Grown whole u.disk)
    (hregion : ∀ l, product l ∨ aside l → whole l) {formats : List Format} {settings : Settings}
    {n total : Nat} {reports : List Report} (hm : Moves ctx targets others ⟨[], [], u⟩ ⟨[], a, s⟩)
    (h : (runFrom settings total n (formats.flatMap (formatStages ctx))).Gives s reports t) :
    ∃ sections : List (List (List Answered)),
      List.Forall₂ (fun f parts => Answered.To parts (jobsFor ctx.settings d f)) formats sections ∧
      Moves ctx targets others ⟨[], [], u⟩ ⟨[], a ++ sections.flatten.flatten, t⟩ ∧
      ∀ z ∈ sections.flatten.flatten, z.job.comments ≠ .full →
        MadeFrom ctx targets others ⟨[], [], u⟩ z := by
  induction formats generalizing n s reports a with
  | nil =>
    obtain ⟨-, rfl⟩ := gives_pure_iff.1 h
    exact ⟨[], .nil, by simpa using hm, fun z hz => absurd hz List.not_mem_nil⟩
  | cons f formats ih =>
    rw [List.flatMap_cons] at h
    obtain ⟨first, rest, v, m, rfl, hfirst, hrest⟩ := runFrom_append h
    obtain ⟨locales, tests, parts, hran, hlocales, htests, hmade⟩ :=
      ran_of_formatStages (a := a) usual (ht f hmain) (ht f) ho hfirst
    -- The formats before this one have added no file that its patterns find.
    have laid : Laid ctx.settings u.disk targets product aside ⟨[], [], u⟩ := .start _ _ _ _ u
    have hsources : ∀ {pattern files}, pattern ∈ ctx.settings.localesPattern :: ctx.settings.testPatterns →
        Found ctx targets others ⟨[], a, s⟩ pattern files → files = d.sources ctx.settings pattern :=
      fun hp hf => hf.eq_sources usual quiet zones inputs hz hregion (laid.moves usual quiet zones hm) hp
    have hlocales' := hsources List.mem_cons_self hlocales
    have htests' : tests = ctx.settings.testPatterns.map (d.sources ctx.settings) := by
      have hall := (List.forall₂_and_left (p := (· ∈ ctx.settings.testPatterns)) _ _).2
        ⟨fun _ hp => hp, htests⟩
      have heq := hall.imp fun _ _ h => (hsources (List.mem_cons_of_mem _ h.1) h.2).symm
      exact (List.forall₂_eq_eq_eq ▸ List.forall₂_map_left_iff.2 heq).symm
    rw [hlocales', htests'] at hran
    obtain ⟨sections, hsections, hmoves, hmades⟩ := ih (hm.trans hran.moves) hrest
    refine ⟨parts :: sections, .cons hran.jobs hsections, ?_, fun z hz hcomments => ?_⟩
    · rw [List.flatten_cons, List.flatten_append, ← List.append_assoc]
      exact hmoves
    · rw [List.flatten_cons, List.flatten_append, List.mem_append] at hz
      rcases hz with hz | hz
      · exact (hmade z hz hcomments).of_moves hm
      · exact hmades z hz hcomments

/-- A job of an answer is one of those that its section runs. -/
theorem job_mem_of_sections {formats : List Format} {sections : List (List (List Answered))}
    (h : List.Forall₂ (fun f parts => Answered.To parts (jobsFor ctx.settings d f)) formats sections)
    {z : Answered} (hz : z ∈ sections.flatten.flatten) :
    ∃ f, z.job ∈ (jobsFor ctx.settings d f).flatten := by
  induction h with
  | nil => exact absurd hz List.not_mem_nil
  | @cons f parts formats sections hparts _ ih =>
    rw [List.flatten_cons, List.flatten_append, List.mem_append] at hz
    rcases hz with hz | hz
    · exact ⟨f, hparts.job_mem hz⟩
    · exact ih hz

/-- The answers of formats are settled by the inputs. -/
theorem settled_of_sections (usual : ctx.storage = .disk) (quiet : ctx.bundler.Quiet)
    (hmain : Path.Plain ctx.settings.mainEntry)
    (zones : u.disk.Zones targets others product aside)
    (inputs : d.Inputs ctx.settings src whole) (hz : d.Grown whole u.disk)
    (hregion : ∀ l, product l ∨ aside l → whole l) (hshelf : u.shelf = {})
    (hlog : u.log.filterMap Event.reply? = []) {formats : List Format}
    {sections : List (List (List Answered))}
    (hsections : List.Forall₂ (fun f parts => Answered.To parts (jobsFor ctx.settings d f)) formats
      sections)
    (hmoves : Moves ctx targets others ⟨[], [], u⟩ ⟨[], sections.flatten.flatten, t⟩)
    (hmade : ∀ z ∈ sections.flatten.flatten, z.job.comments ≠ .full →
      MadeFrom ctx targets others ⟨[], [], u⟩ z) {z : Answered}
    (hmem : z ∈ sections.flatten.flatten) : z.Settled ctx d := by
  have laid : Laid ctx.settings u.disk targets product aside ⟨[], [], u⟩ := .start _ _ _ _ u
  have faithful : Faithful ctx u.disk (fun l => product l ∨ aside l) ⟨[], [], u⟩ :=
    .start ctx _ hshelf hlog
  obtain ⟨f, hjob⟩ := job_mem_of_sections hsections hmem
  refine (faithful.moves usual quiet zones laid hmoves).settled inputs hz hregion hmem
    (headerPath_mem hjob) (selects_of_mem_formatJobs hmain hjob) fun hcomments => ?_
  obtain ⟨files, hfound, hread⟩ := hmade z hmem hcomments
  rw [hread, hfound.eq_sources usual quiet zones inputs hz hregion laid List.mem_cons_self]

end Pipeline

end

/-! ## The last answers -/

namespace Answered

variable {d : Disk} {loc : Location} {parts parts' : List (List Answered)} {jobs : List (List Job)}
  {part part' : List Answered} {js : List Job}

theorem map_lastAt_append (a a' : List Answered) : (lastAt d loc (a ++ a')).map job =
    ((lastAt d loc a').map job).or ((lastAt d loc a).map job) := by
  rw [lastAt_append]
  cases lastAt d loc a' <;> rfl

/-- If one job of a stage at most goes to a place, the stage's last answer there is one to that job. -/
theorem map_lastAt_of_perm (h : (part.map job).Perm js) (h' : (part'.map job).Perm js)
    (hjs : ∀ j ∈ js, ∀ j' ∈ js, d.heading? j.target = some loc → d.heading? j'.target = some loc →
      j = j') : (lastAt d loc part).map job = (lastAt d loc part').map job := by
  have mem : ∀ {part : List Answered}, (part.map job).Perm js → ∀ a ∈ part, a.job ∈ js :=
    fun hp a ha => hp.mem_iff.1 (List.mem_map_of_mem ha)
  have none_of_none : ∀ {part part' : List Answered}, (part.map job).Perm js → (part'.map job).Perm js →
      lastAt d loc part = none → lastAt d loc part' = none := by
    intro part part' hp hp' hnone
    refine lastAt_eq_none_iff.2 fun a ha hheads => ?_
    obtain ⟨b, hb, hjob⟩ := List.mem_map.1 (hp.mem_iff.2 (mem hp' a ha))
    exact lastAt_eq_none_iff.1 hnone b hb (hjob ▸ hheads)
  cases hlast : lastAt d loc part with
  | none => rw [none_of_none h h' hlast]
  | some a =>
    cases hlast' : lastAt d loc part' with
    | none =>
      rw [none_of_none h' h hlast'] at hlast
      cases hlast
    | some a' =>
      obtain ⟨ha, hheads⟩ := lastAt_eq_some hlast
      obtain ⟨ha', hheads'⟩ := lastAt_eq_some hlast'
      exact congrArg some (hjs _ (mem h a ha) _ (mem h' a' ha') hheads hheads')

/-- Two runs of the same stages have their last answers to the same jobs. -/
theorem To.map_lastAt_eq (h : To parts jobs) (h' : To parts' jobs)
    (hjs : ∀ js ∈ jobs, ∀ j ∈ js, ∀ j' ∈ js, d.heading? j.target = some loc →
      d.heading? j'.target = some loc → j = j') :
    (lastAt d loc parts.flatten).map job = (lastAt d loc parts'.flatten).map job := by
  induction h generalizing parts' with
  | nil =>
    cases h'
    rfl
  | cons hpart _ ih =>
    cases h' with
    | cons hpart' hrest' =>
      obtain ⟨hfirst, hrest⟩ := List.forall_mem_cons.1 hjs
      rw [List.flatten_cons, List.flatten_cons, map_lastAt_append, map_lastAt_append, ih hrest' hrest,
        map_lastAt_of_perm hpart hpart' hfirst]

/-- The sections of one format decide what lies at its places, if no other section goes there. -/
theorem map_lastAt_sections {formats : List Format} {sections : List (List (List Answered))}
    {stages : Format → List (List Job)} {f : Format} {last : Option Job}
    (h : List.Forall₂ (fun g parts => To parts (stages g)) formats sections)
    (same : ∀ parts, To parts (stages f) → (lastAt d loc parts.flatten).map job = last)
    (others : ∀ g, g ≠ f → ∀ parts, To parts (stages g) → lastAt d loc parts.flatten = none) :
    (lastAt d loc sections.flatten.flatten).map job = if f ∈ formats then last else none := by
  induction h with
  | nil => rfl
  | @cons g parts formats sections hparts _ ih =>
    rw [List.flatten_cons, List.flatten_append, map_lastAt_append, ih]
    by_cases hg : g = f
    · subst hg
      rw [same parts hparts, if_pos List.mem_cons_self]
      split
      · cases last <;> rfl
      · rfl
    · rw [others g hg parts hparts]
      simp only [List.mem_cons, Ne.symm hg, false_or]
      exact Option.or_none

end Answered

end LocaleForge
