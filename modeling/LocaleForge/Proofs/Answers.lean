import LocaleForge.Proofs.Placing

/-!
What the answers of a build are answers to. Each request is that of its job, each header is on the
shelf, and a header that is on the shelf is the text of its file.
-/

namespace LocaleForge

/-- The text of the file at a location. -/
def Disk.textAt? (d : Disk) (loc : Location) : Option String :=
  (d.content? loc).bind Text.decode?

/-- The header text of a job: none, or what the shelf holds. -/
def Shelf.Heads (shelf : Shelf) (settings : Settings) (j : Job) (header : String) : Prop :=
  (j.headerPath settings = Job.noHeader ∧ header = "") ∨
    (j.headerPath settings ≠ Job.noHeader ∧ shelf.get? (j.headerPath settings) = some header)

/-- The shelf holds what lies in the tree `d` where the paths head, unless they head to the region in
which files are written. -/
def Shelf.FitsTo (shelf : Shelf) (d : Disk) (region : Location → Prop) : Prop :=
  ∀ p text, shelf.get? p = some text →
    ∃ loc, d.heading? p = some loc ∧ (¬ region loc → d.textAt? loc = some text)

/-- What is known of the answers of a course that began with the tree `d`. -/
structure Faithful (ctx : Context) (d : Disk) (region : Location → Prop) (c : Course) : Prop where
  opened : ∀ call ∈ c.opened, call.request = .ofJob ctx.settings call.job ∧
    c.state.shelf.Heads ctx.settings call.job call.header
  answered : ∀ a ∈ c.answered, a.call.request = .ofJob ctx.settings a.job ∧
    c.state.shelf.Heads ctx.settings a.job a.call.header
  replied : ∀ a ∈ c.answered, (ctx.bundler.reply a.call.request a.tree).1 = .ok a.reply ∧
    d.Grown region a.tree
  shelf : c.state.shelf.FitsTo d region
  replies : c.state.log.filterMap Event.reply? =
    c.answered.map fun a => ⟨a.call.request, some a.reply⟩

section

variable {ctx : Context} {d X : Disk} {targets others : Path → Prop}
  {product aside region : Location → Prop} {c c' : Course} {s t : BuildState} {o : List OpenCall}
  {a : List Answered} {p : Path} {text : String}

theorem Disk.textAt?_of_readText (h : X.readText p = .ok text) :
    ∃ s, X.find true p = .ok s ∧ X.textAt? s.location = some text := by
  obtain ⟨loc, content, x, b, hf, hd⟩ := readText_eq_ok_iff.1 h
  have he := (sound_of_find hf).entry_eq
  refine ⟨_, hf, ?_⟩
  rw [textAt?, content?, ← he]
  exact hd

theorem Disk.Grown.content?_eq (h : d.Grown region X) {loc : Location} (hr : ¬ region loc) :
    X.content? loc = d.content? loc := by
  refine Option.ext fun content => ⟨fun hx => ?_, fun hd => ?_⟩
  · obtain ⟨x, hg⟩ := get?_of_content? hx
    rw [content?, (h.get?_file_iff hr).1 hg]
  · obtain ⟨x, hg⟩ := get?_of_content? hd
    rw [content?, (h.get?_file_iff hr).2 hg]

/-- A text outside the region is the one that was there at the start. -/
theorem Disk.Grown.textAt?_eq (h : d.Grown region X) {loc : Location} (hr : ¬ region loc) :
    X.textAt? loc = d.textAt? loc := by
  rw [textAt?, h.content?_eq hr, textAt?]

theorem Shelf.FitsTo.put {shelf : Shelf} (h : shelf.FitsTo d region) (hg : d.Grown region X)
    (hr : X.readText p = .ok text) : (shelf.put p text).FitsTo d region := by
  intro q known hq
  by_cases hpq : p.components = q.components
  · rw [get?_put_self shelf hpq] at hq
    cases hq
    obtain ⟨s, hf, ht⟩ := Disk.textAt?_of_readText hr
    refine ⟨s.location, ?_, fun hout => ?_⟩
    · rw [← Disk.heading?_congr hpq]
      exact hg.heading?_of_find hf
    · rw [← hg.textAt?_eq hout, ht]
  · rw [get?_put_of_ne shelf hpq] at hq
    exact h q known hq

/-- A header that is put on the shelf was not there before, so the others stay. -/
theorem Shelf.Heads.put {shelf : Shelf} {settings : Settings} {j : Job} {header : String}
    (h : shelf.Heads settings j header) (hp : shelf.get? p = none) :
    (shelf.put p text).Heads settings j header := by
  refine h.imp id fun ⟨hne, hget⟩ => ⟨hne, ?_⟩
  rw [get?_put_of_ne, hget]
  intro hc
  have : shelf.get? p = shelf.get? (j.headerPath settings) := by simp only [get?, hc]
  rw [this, hget] at hp
  cases hp

/-- Opening a call leaves the headers of the others as they are. -/
theorem header_faithful (usual : ctx.storage = .disk) {j : Job} {header : String}
    (hs : s.shelf.FitsTo d region) (hg : d.Grown region s.disk)
    (h : (ctx.header (j.headerPath ctx.settings)).Gives s header t) :
    t.shelf.Heads ctx.settings j header ∧ t.shelf.FitsTo d region ∧
      (∀ j' header', s.shelf.Heads ctx.settings j' header' → t.shelf.Heads ctx.settings j' header') ∧
      t.log.filterMap Event.reply? = s.log.filterMap Event.reply? := by
  rcases Context.header_gives h with ⟨hp, rfl, rfl⟩ | ⟨hp, hget, rfl⟩ | ⟨hp, hget, hread, rfl⟩
  · exact ⟨.inl ⟨hp, rfl⟩, hs, fun _ _ h => h, rfl⟩
  · exact ⟨.inr ⟨hp, hget⟩, hs, fun _ _ h => h, rfl⟩
  · have hread' := (Context.read_eq_ok_iff usual).1 hread
    refine ⟨.inr ⟨hp, Shelf.get?_put_self _ rfl header⟩, hs.put hg hread', fun _ _ h => h.put hget, ?_⟩
    rw [List.filterMap_append]
    exact List.append_nil _

theorem Faithful.start (ctx : Context) (region : Location → Prop) (hshelf : s.shelf = {})
    (hlog : s.log.filterMap Event.reply? = []) : Faithful ctx s.disk region ⟨[], [], s⟩ where
  opened _ h := absurd h List.not_mem_nil
  answered _ h := absurd h List.not_mem_nil
  replied _ h := absurd h List.not_mem_nil
  shelf p text h := by
    rw [hshelf] at h
    cases h
  replies := hlog

theorem Faithful.same_shelf (h : Faithful ctx d region ⟨o, a, s⟩) (hs : t.shelf = s.shelf)
    (hl : t.log.filterMap Event.reply? = s.log.filterMap Event.reply?) :
    Faithful ctx d region ⟨o, a, t⟩ where
  opened := by
    have := h.opened
    rwa [← hs] at this
  answered := by
    have := h.answered
    rwa [← hs] at this
  replied := h.replied
  shelf := by
    have := h.shelf
    rwa [← hs] at this
  replies := hl.trans h.replies

theorem reply?_note (log : List Event) {e : Event} (h : e.reply? = none) :
    (log ++ [e]).filterMap Event.reply? = log.filterMap Event.reply? := by
  rw [List.filterMap_append, List.filterMap_cons_none h, List.filterMap_nil, List.append_nil]

theorem Faithful.move (usual : ctx.storage = .disk) (hg : d.Grown region c.state.disk)
    (h : Faithful ctx d region c) (hm : Move ctx targets others c c') :
    Faithful ctx d region c' := by
  cases hm with
  | notes e he => exact h.same_shelf rfl (reply?_note _ he)
  | tells m => exact h.same_shelf rfl rfl
  | opens ht hc =>
    obtain ⟨u, hu, rfl, hrequest, rfl⟩ := Context.openCall_gives hc
    -- What was kept of headers stays, so earlier calls have the headers they had.
    obtain ⟨hheads, hfits, hstay, hlog⟩ := header_faithful usual h.shelf hg hu
    refine ⟨fun x hx => ?_, fun x hx => ?_, h.replied, hfits, ?_⟩
    · rcases List.mem_append.1 hx with hx | hx
      · exact (h.opened x hx).imp_right (hstay _ _)
      · rw [List.mem_singleton.1 hx]
        exact ⟨hrequest, hheads⟩
    · exact (h.answered x hx).imp_right (hstay _ _)
    · exact (reply?_note _ rfl).trans (hlog.trans h.replies)
  | @answers o o' a s t u call reply hr hw =>
    obtain ⟨hreply, rfl⟩ := Context.answer_gives hr
    obtain ⟨-, hu⟩ := Context.write_gives usual hw
    have hshelf : u.shelf = s.shelf := by rw [hu]
    have hcall := h.opened call (by simp)
    refine ⟨fun x hx => ?_, fun x hx => ?_, fun x hx => ?_, ?_, ?_⟩
    · rw [hshelf]
      refine h.opened x ?_
      simp only [List.mem_append, List.mem_cons] at hx ⊢
      exact hx.imp_right .inr
    · rw [hshelf]
      rcases List.mem_append.1 hx with hx | hx
      · exact h.answered x hx
      · rw [List.mem_singleton.1 hx]
        exact hcall
    · rcases List.mem_append.1 hx with hx | hx
      · exact h.replied x hx
      · rw [List.mem_singleton.1 hx]
        exact ⟨hreply, hg⟩
    · rw [hshelf]
      exact h.shelf
    · rw [hu]
      refine (reply?_note _ rfl).trans ?_
      rw [List.filterMap_append, h.replies, List.map_append]
      rfl
  | writes ht hw =>
    obtain ⟨-, hu⟩ := Context.write_gives usual hw
    exact h.same_shelf (by rw [hu]) (by rw [hu]; exact reply?_note _ rfl)
  | copies ht hw =>
    obtain ⟨-, hu⟩ := Context.copy_gives usual hw
    exact h.same_shelf (by rw [hu]) (by rw [hu]; exact reply?_note _ rfl)

/-- However the build goes on, the answers are answers to the requests of their jobs. -/
theorem Faithful.moves (usual : ctx.storage = .disk) (quiet : ctx.bundler.Quiet)
    (zones : d.Zones targets others product aside) (hl : Laid ctx.settings d targets product aside c)
    (h : Faithful ctx d (fun l => product l ∨ aside l) c) (hm : Moves ctx targets others c c') :
    Faithful ctx d (fun l => product l ∨ aside l) c' := by
  induction hm with
  | refl => exact h
  | tail before step ih => exact ih.move usual (hl.moves usual quiet zones before).grown step

end

end LocaleForge
