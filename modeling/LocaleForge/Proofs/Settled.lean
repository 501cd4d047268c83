import LocaleForge.Proofs.FormatRun
import LocaleForge.Proofs.Inputs

/-!
Answers that are settled by their jobs. When a bundler's reply depends on the request and the text of
the entry only, and the inputs stay as they are, two answers to one job give the same file, in whatever
builds they occur.
-/

namespace LocaleForge

/-- The reply depends on the request and on the text of its entry only. -/
def Bundler.ReadsEntry (b : Bundler) : Prop :=
  ∀ r d d', (d.readText r.entry).toOption = (d'.readText r.entry).toOption →
    (b.reply r d).1 = (b.reply r d').1

/-- The answer is one to the request of its job, with the header and the entry that the tree `d` has
for it. -/
structure Answered.Settled (ctx : Context) (d : Disk) (a : Answered) : Prop where
  request : a.call.request = .ofJob ctx.settings a.job
  reply : (ctx.bundler.reply a.call.request a.tree).1 = .ok a.reply
  header : (a.job.headerPath ctx.settings = Job.noHeader ∧ a.call.header = "") ∨
    (a.job.headerPath ctx.settings ≠ Job.noHeader ∧
      ∃ loc, d.heading? (a.job.headerPath ctx.settings) = some loc ∧
        d.textAt? loc = some a.call.header)
  entry : (a.tree.readText a.job.entryPath).toOption =
    if a.job.comments = .full then (d.readText a.job.entryPath).toOption
    else some (Locale.entryText ctx.settings.baseModule ctx.settings.defaultLocale
      (d.sources ctx.settings ctx.settings.localesPattern))

variable {ctx : Context} {d Z : Disk} {a a' : Answered}

theorem Answered.Settled.header_eq (h : a.Settled ctx d) (h' : a'.Settled ctx d) (hjob : a.job = a'.job) :
    a.call.header = a'.call.header := by
  have hheader := h'.header
  rw [← hjob] at hheader
  rcases h.header with ⟨hnone, he⟩ | ⟨hsome, loc, hloc, ht⟩
  · rcases hheader with ⟨-, he'⟩ | ⟨hsome, -⟩
    · rw [he, he']
    · exact absurd hnone hsome
  · rcases hheader with ⟨hnone, -⟩ | ⟨-, loc', hloc', ht'⟩
    · exact absurd hnone hsome
    · rw [hloc] at hloc'
      cases hloc'
      rw [ht] at ht'
      exact Option.some.inj ht'

/-- Two answers to the same job give the same file. -/
theorem Answered.Settled.output_eq (reads : ctx.bundler.ReadsEntry) (h : a.Settled ctx d)
    (h' : a'.Settled ctx d) (hjob : a.job = a'.job) :
    a.output ctx.settings = a'.output ctx.settings := by
  have hentry : (a.tree.readText a.job.entryPath).toOption =
      (a'.tree.readText a.job.entryPath).toOption := by
    have he := h.entry
    have he' := h'.entry
    rw [← hjob] at he'
    rw [he, he']
  have hreply : a.reply = a'.reply := by
    have hr := h.reply
    have hr' := h'.reply
    rw [h.request] at hr
    rw [h'.request, ← hjob] at hr'
    rw [reads (.ofJob ctx.settings a.job) a.tree a'.tree hentry, hr'] at hr
    exact (Except.ok.inj hr).symm
  rw [output, output, OpenCall.output, OpenCall.output, h.header_eq h' hjob, hreply,
    show a.call.job = a'.call.job from hjob]

namespace Pipeline

variable {f : Format} {locales : List String} {tests : List (List String)} {j : Job}

/-- A job of a format takes one of the headers of the settings, if it takes one at all. -/
theorem headerPath_mem {s : Settings} (h : j ∈ (formatJobs s f locales tests).flatten) :
    j.headerPath s = Job.noHeader ∨
      j.headerPath s ∈ [s.defaultHeader, s.localeHeader, s.testHeader] := by
  have wrapped : ∀ {p : Path} {j : Job}, j.header = wrappedHeader f p →
      j.headerPath s = Job.noHeader ∨ j.headerPath s = p := by
    intro p j hj
    rw [Job.headerPath, hj, wrappedHeader]
    split
    case h_1 he => split at he <;> cases he
    case h_2 => exact .inl rfl
    case h_3 he =>
      split at he <;> cases he
      exact .inr rfl
  simp only [formatJobs, List.flatten_append, List.mem_append, List.mem_flatten, List.mem_map,
    List.mem_cons, List.not_mem_nil, or_false] at h
  rcases h with (⟨_, rfl | rfl, h⟩ | ⟨_, ⟨files, -, rfl⟩, h⟩) | ⟨_, rfl | rfl, h⟩
  · obtain rfl := List.mem_singleton.1 h
    cases f <;> simp [Job.headerPath, mainJob, Format.isModule]
  · obtain ⟨file, -, rfl⟩ := List.mem_map.1 h
    exact (wrapped rfl).imp_right fun h => by simp [h]
  · obtain ⟨file, -, rfl⟩ := List.mem_map.1 h
    exact (wrapped rfl).imp_right fun h => by simp [h]
  all_goals
    obtain rfl := List.mem_singleton.1 h
    cases f <;> simp [Context.aggregateJob, Job.headerPath, Format.isModule]

/-- A job of a format that is not an aggregate has a selected source as its entry. -/
theorem selects_of_mem_formatJobs {s : Settings} (hmain : Path.Plain s.mainEntry)
    (h : j ∈ (formatJobs s f (d.sources s s.localesPattern) (s.testPatterns.map (d.sources s))).flatten)
    (hj : j.comments = .full) : j.root = s.srcDir ∧ s.Selects j.entry ∧ Path.Plain j.entry := by
  simp only [formatJobs, List.flatten_append, List.mem_append, List.mem_flatten, List.mem_map,
    List.mem_cons, List.not_mem_nil, or_false] at h
  rcases h with (⟨_, rfl | rfl, h⟩ | ⟨_, ⟨_, ⟨pattern, hp, rfl⟩, rfl⟩, h⟩) | ⟨_, rfl | rfl, h⟩
  · obtain rfl := List.mem_singleton.1 h
    exact ⟨rfl, .inl rfl, hmain⟩
  · obtain ⟨file, hfile, rfl⟩ := List.mem_map.1 h
    obtain ⟨hselects, hplain, -⟩ := Disk.selects_of_mem_sources List.mem_cons_self hfile
    exact ⟨rfl, hselects, hplain⟩
  · obtain ⟨file, hfile, rfl⟩ := List.mem_map.1 h
    obtain ⟨hselects, hplain, -⟩ := Disk.selects_of_mem_sources (List.mem_cons_of_mem _ hp) hfile
    exact ⟨rfl, hselects, hplain⟩
  all_goals
    obtain rfl := List.mem_singleton.1 h
    cases hj

end Pipeline

/-- What a build that began with a tree knows of an answer settles it by the inputs in a smaller one. -/
theorem Faithful.settled {src : Location} {region whole : Location → Prop} {c : Course}
    (inputs : d.Inputs ctx.settings src whole) (hz : d.Grown whole Z)
    (hregion : ∀ l, region l → whole l) (h : Faithful ctx Z region c) (ha : a ∈ c.answered)
    (hheader : a.job.headerPath ctx.settings = Job.noHeader ∨
      a.job.headerPath ctx.settings ∈ [ctx.settings.defaultHeader, ctx.settings.localeHeader,
        ctx.settings.testHeader])
    (hsource : a.job.comments = .full → a.job.root = ctx.settings.srcDir ∧
      ctx.settings.Selects a.job.entry ∧ Path.Plain a.job.entry)
    (hmade : a.job.comments ≠ .full → a.tree.readText a.job.entryPath =
      .ok (Locale.entryText ctx.settings.baseModule ctx.settings.defaultLocale
        (d.sources ctx.settings ctx.settings.localesPattern))) : a.Settled ctx d := by
  obtain ⟨hrequest, hheads⟩ := h.answered a ha
  obtain ⟨hreply, htree⟩ := h.replied a ha
  have hgrown : d.Grown whole a.tree := hz.trans htree (fun _ h => h) hregion
  have hlinks := hz.linkFree inputs.linkFree
  refine ⟨hrequest, hreply, ?_, ?_⟩
  · refine hheads.imp_right fun ⟨hne, hget⟩ => ⟨hne, ?_⟩
    obtain ⟨loc, hloc, ht⟩ := h.shelf _ _ hget
    rw [inputs.linkFree.heading?_eq hlinks hz.workDir] at hloc
    have hout := inputs.templates _ (hheader.resolve_left hne) loc hloc
    refine ⟨loc, hloc, ?_⟩
    rw [← hz.textAt?_eq hout]
    exact ht fun hin => hout (hregion loc hin)
  · split
    case isTrue hfull =>
      obtain ⟨hroot, hselects, hplain⟩ := hsource hfull
      rw [Job.entryPath, hroot]
      exact inputs.readText_eq hgrown hselects hplain
    case isFalse hkeep =>
      rw [hmade hkeep]
      rfl

end LocaleForge
