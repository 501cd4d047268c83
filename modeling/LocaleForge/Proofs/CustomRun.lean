import LocaleForge.Proofs.Asking
import LocaleForge.Proofs.Blind
import LocaleForge.Proofs.Layout
import LocaleForge.Proofs.LinkFree
import LocaleForge.Proofs.Placing
import LocaleForge.Proofs.Registering
import LocaleForge.Proofs.Safety
import LocaleForge.Proofs.Setting

/-!
Custom builds: two aggregates of the chosen locales, without and with the base module, and a look at what
the second one registers.
-/

namespace LocaleForge

open Build

namespace Settings

/-- The aggregate of the chosen locales without the base module. -/
def customLocales (s : Settings) : Path :=
  Pipeline.aggregateTarget s .umd "locales.custom.js"

/-- The aggregate of the chosen locales with the base module. -/
def customWhole (s : Settings) : Path :=
  Pipeline.aggregateTarget s .umd "moment-with-locales.custom.js"

end Settings

namespace Request

/-- What the bundler is asked for the first aggregate. -/
def customLocales (s : Settings) : Request :=
  .referring s .umd (s.tmpDir.join "locales.custom.js")

/-- What the bundler is asked for the second aggregate. -/
def customWhole (s : Settings) : Request :=
  .including .umd unusedName (s.tmpDir.join "moment-with-locales.custom.js")

end Request

namespace Context

variable {ctx : Context} {names files : List String} {s t : BuildState}

/-- The aggregate of chosen locales without the base module. -/
def aggregateLocales (ctx : Context) (files : List String) : Build Path :=
  ctx.aggregate ctx.settings.customLocales files .umd true

/-- The aggregate of chosen locales with the base module. -/
def aggregateWhole (ctx : Context) (files : List String) : Build Path :=
  ctx.aggregate ctx.settings.customWhole files .umd false

theorem fileName?_customLocales (settings : Settings) :
    settings.customLocales.fileName? = some "locales.custom.js" :=
  Pipeline.fileName?_aggregateTarget Pipeline.simple_customLocales

theorem fileName?_customWhole (settings : Settings) :
    settings.customWhole.fileName? = some "moment-with-locales.custom.js" :=
  Pipeline.fileName?_aggregateTarget Pipeline.simple_withCustomLocales

/-! ## The entry of an aggregate -/

theorem ofJob_customLocales (settings : Settings) : Request.ofJob settings
    (aggregateJob settings "locales.custom.js" settings.customLocales .umd true) =
      .customLocales settings :=
  Request.ofJob_aggregate_referring settings .umd _ _

theorem ofJob_customWhole (settings : Settings) : Request.ofJob settings
    (aggregateJob settings "moment-with-locales.custom.js" settings.customWhole .umd false) =
      .customWhole settings :=
  Request.ofJob_aggregate_including settings .umd _ _

/-! ## A custom build without its messages -/

/-- A staging area that is found is taken as it is. -/
theorem prepareStaging_of_found (h : ctx.storage.hasEntry ctx.settings.tmpDir s.disk = true) :
    ctx.prepareStaging.Gives s 0 s := by
  rw [Gives, prepareStaging, run_bind, run_hasEntry, h]
  rfl

theorem prepareStaging_of_exists (usual : ctx.storage = .disk)
    (h : s.disk.exists? ctx.settings.tmpDir = true) : ctx.prepareStaging.Gives s 0 s := by
  refine prepareStaging_of_found ?_
  rw [usual]
  exact h

/-- How an aggregate comes about: its entry is placed in the staging area, and the bundle is written
that the bundler has answered. -/
structure Aggregated (ctx : Context) (entry : String) (target : Path) (job : Job) (files : List String)
    (s t : BuildState) : Prop where
  steps : ∃ (n : Nat) (v : BuildState) (X : Disk) (entryPlace targetPlace : Location)
    (header reply : String), ctx.prepareStaging.Gives s n v ∧
    v.disk.Wrote (ctx.settings.tmpDir.join entry) entryPlace
      (Text.encode (Locale.entryText ctx.settings.baseModule ctx.settings.defaultLocale files)) X ∧
    (ctx.bundler.reply (.ofJob ctx.settings job) X).1 = .ok reply ∧
    (ctx.bundler.reply (.ofJob ctx.settings job) X).2.Wrote target targetPlace
      (Text.encode ((OpenCall.mk job header (.ofJob ctx.settings job)).output ctx.settings reply)) t.disk
  logged : ∃ calls, t.log = s.log ++ calls ∧ .write target ∈ calls

theorem aggregated_of_gives (usual : ctx.storage = .disk) {target p : Path} {entry : String}
    (hentry : target.fileName? = some entry) {f : Format} {excludeBase : Bool}
    (h : (ctx.aggregate target files f excludeBase).Gives s p t) :
    p = target ∧ ctx.Aggregated entry target (aggregateJob ctx.settings entry target f excludeBase)
      files s t := by
  rw [aggregate, hentry] at h
  obtain ⟨n, v, hstaging, h⟩ := gives_bind_iff.1 h
  obtain ⟨_, w, hwrite, h⟩ := gives_bind_iff.1 h
  obtain ⟨call, u, hopen, hclose⟩ := gives_bind_iff.1 h
  obtain ⟨rfl, reply, x, hanswer, htarget⟩ := closeCall_gives hclose
  obtain ⟨u', hheader, hjob, hrequest, hu⟩ := openCall_gives hopen
  obtain ⟨hreply, hx⟩ := answer_gives hanswer
  obtain ⟨⟨place, hplaced⟩, hentered⟩ := write_gives usual hwrite
  obtain ⟨⟨place', hplaced'⟩, ht⟩ := write_gives usual htarget
  have hdisk := disk_of_openCall hopen
  obtain ⟨job, header, request⟩ := call
  simp only at hjob hrequest
  subst hjob hrequest
  rw [hdisk] at hreply
  refine ⟨rfl, ⟨n, v, w.disk, place, place', header, reply, hstaging, hplaced, hreply, ?_⟩, ?_⟩
  · rw [hx] at hplaced'
    simp only [hdisk] at hplaced'
    exact hplaced'
  · -- The log grows from step to step, and the target is written last.
    obtain ⟨staged, hv, -⟩ := ctx.asks_prepareStaging.of_gives hstaging
    obtain ⟨read, hu', -⟩ := (ctx.asks_header _).of_gives hheader
    have hstaged : s.log <+: v.log := ⟨staged, hv.symm⟩
    have hentry : v.log <+: w.log := ⟨_, (congrArg BuildState.log hentered).symm⟩
    have hloaded : w.log <+: u'.log := ⟨read, hu'.symm⟩
    have hasked : u'.log <+: u.log := ⟨_, (congrArg BuildState.log hu).symm⟩
    have hanswered : u.log <+: x.log := ⟨_, (congrArg BuildState.log hx).symm⟩
    obtain ⟨calls, hcalls⟩ := (hstaged.trans hentry).trans ((hloaded.trans hasked).trans hanswered)
    refine ⟨calls ++ [.write target], ?_, List.mem_append_right _ List.mem_cons_self⟩
    rw [← List.append_assoc, hcalls]
    exact congrArg BuildState.log ht

/-! ## How a custom build ends -/

theorem run_registered (bundle : Path) (s : BuildState) :
    (ctx.registered bundle).run.run s = ((ctx.probe.registered bundle s.disk).1.mapError .failed,
      { s with disk := (ctx.probe.registered bundle s.disk).2, log := s.log ++ [.probe bundle] }) := by
  rw [registered, run_bind, run_note]
  simp only [run_alter]

/-- The registered locales besides the default one. -/
def extra (ctx : Context) (registered : List String) : List String :=
  registered.filter (· != ctx.settings.defaultLocale)

/-- Both aggregates are made, one after the other. -/
structure BothMade (ctx : Context) (files : List String) (s u₁ u₂ : BuildState) : Prop where
  locales : (ctx.aggregateLocales files).Gives s ctx.settings.customLocales u₁
  whole : (ctx.aggregateWhole files).Gives u₁ ctx.settings.customWhole u₂

/-- The ways in which a custom build can end after its names are resolved. Each phase begins where the
one before has ended well. -/
inductive CustomEnd (ctx : Context) (names files : List String) (s : BuildState) :
    Except Stop (List Report) → BuildState → Prop
  | locales {e e' u} (h : (ctx.aggregateLocales files).run.run s = (.error e, u)) :
      CustomEnd ctx names files s (.error e') u
  | whole {u₁ e e' u} (h₁ : (ctx.aggregateLocales files).Gives s ctx.settings.customLocales u₁)
      (h : (ctx.aggregateWhole files).run.run u₁ = (.error e, u)) :
      CustomEnd ctx names files s (.error e') u
  | probe {u₁ u₂ e e' u} (made : ctx.BothMade files s u₁ u₂)
      (h : (ctx.registered ctx.settings.customWhole).run.run u₂ = (.error e, u)) :
      CustomEnd ctx names files s (.error e') u
  | missing {u₁ u₂ registered u} (made : ctx.BothMade files s u₁ u₂)
      (h : (ctx.registered ctx.settings.customWhole).Gives u₂ registered u)
      (hcount : (ctx.extra registered).length ≠ names.length) :
      CustomEnd ctx names files s (.error (.failed ⟨[.stage "verify locale registration"],
        .missingParents names (ctx.extra registered)⟩)) u
  | done {u₁ u₂ registered u reports} (made : ctx.BothMade files s u₁ u₂)
      (h : (ctx.registered ctx.settings.customWhole).Gives u₂ registered u)
      (hcount : (ctx.extra registered).length = names.length) :
      CustomEnd ctx names files s (.ok reports) u

/-- What a custom build asks other programs for. -/
def customAsks (s : Settings) : List Event :=
  [.request (.customLocales s), .request (.customWhole s), .probe s.customWhole]

theorem asks_aggregateLocales (ctx : Context) (files : List String) :
    (ctx.aggregateLocales files).Asks [.request (.customLocales ctx.settings)] := by
  have h := ctx.asks_aggregate (fileName?_customLocales ctx.settings) files .umd true
  rwa [ofJob_customLocales] at h

theorem asks_aggregateWhole (ctx : Context) (files : List String) :
    (ctx.aggregateWhole files).Asks [.request (.customWhole ctx.settings)] := by
  have h := ctx.asks_aggregate (fileName?_customWhole ctx.settings) files .umd false
  rwa [ofJob_customWhole] at h

theorem BothMade.calls (usual : ctx.storage = .disk) {u₁ u₂ : BuildState}
    (h : ctx.BothMade files s u₁ u₂) : ∃ first second, u₂.log = s.log ++ (first ++ second) ∧
      (first ++ second).filter Event.asks =
        [.request (.customLocales ctx.settings), .request (.customWhole ctx.settings)] ∧
      .write ctx.settings.customLocales ∈ first ∧ .write ctx.settings.customWhole ∈ second := by
  obtain ⟨first, hfirst, hasked₁⟩ := (ctx.asks_aggregateLocales files).of_gives h.locales
  obtain ⟨second, hsecond, hasked₂⟩ := (ctx.asks_aggregateWhole files).of_gives h.whole
  obtain ⟨-, -, first', hfirst', hwritten₁⟩ :=
    aggregated_of_gives usual (fileName?_customLocales ctx.settings) h.locales
  obtain ⟨-, -, second', hsecond', hwritten₂⟩ :=
    aggregated_of_gives usual (fileName?_customWhole ctx.settings) h.whole
  obtain rfl := List.append_cancel_left (hfirst.symm.trans hfirst')
  obtain rfl := List.append_cancel_left (hsecond.symm.trans hsecond')
  refine ⟨first, second, ?_, ?_, hwritten₁, hwritten₂⟩
  · rw [hsecond, hfirst, List.append_assoc]
  · rw [List.filter_append, hasked₁, hasked₂]
    rfl

theorem log_of_registered {bundle : Path} {r : Except Stop (List String)}
    (h : (ctx.registered bundle).run.run s = (r, t)) : t.log = s.log ++ [.probe bundle] := by
  rw [run_registered] at h
  cases h
  rfl

theorem probe_notMem {calls : List Event} {p : Path} (h : calls.filter Event.asks <+:
    [.request (.customLocales ctx.settings), .request (.customWhole ctx.settings)]) :
    Event.probe p ∉ calls := by
  intro hmem
  have hasked := h.subset (List.mem_filter.2 ⟨hmem, rfl⟩)
  simp at hasked

/-- The calls of a custom build: other programs are asked in a fixed order, and the probe comes last, after
both targets were written. -/
structure CustomCalls (ctx : Context) (files : List String) (s : BuildState) (calls : List Event) :
    Prop where
  asked : calls.filter Event.asks <+: customAsks ctx.settings
  probed : ∀ p, Event.probe p ∈ calls → ∃ first second u₁ u₂, ctx.BothMade files s u₁ u₂ ∧
    .write ctx.settings.customLocales ∈ first ∧ .write ctx.settings.customWhole ∈ second ∧
    u₂.log = s.log ++ (first ++ second) ∧
    calls = first ++ second ++ [.probe ctx.settings.customWhole]

theorem CustomCalls.unprobed {calls : List Event} (h : calls.filter Event.asks <+:
    [.request (.customLocales ctx.settings), .request (.customWhole ctx.settings)]) :
    ctx.CustomCalls files s calls where
  asked := h.trans (List.prefix_append _ [Event.probe ctx.settings.customWhole])
  probed _ hp := absurd hp (probe_notMem h)

theorem BothMade.customCalls (usual : ctx.storage = .disk) {u₁ u₂ : BuildState}
    (h : ctx.BothMade files s u₁ u₂) (ht : t.log = u₂.log ++ [.probe ctx.settings.customWhole]) :
    ∃ calls, t.log = s.log ++ calls ∧ ctx.CustomCalls files s calls := by
  obtain ⟨first, second, hlog, hasked, hfirst, hsecond⟩ := h.calls usual
  refine ⟨first ++ second ++ [.probe ctx.settings.customWhole], ?_, ?_, fun _ _ =>
    ⟨first, second, u₁, u₂, h, hfirst, hsecond, hlog, rfl⟩⟩
  · rw [ht, hlog, List.append_assoc]
  · rw [List.filter_append, hasked]
    exact List.prefix_rfl

theorem CustomEnd.calls (usual : ctx.storage = .disk) {r : Except Stop (List Report)}
    (h : ctx.CustomEnd names files s r t) :
    ∃ calls, t.log = s.log ++ calls ∧ ctx.CustomCalls files s calls := by
  cases h with
  | locales h =>
    obtain ⟨calls, hcalls, hfront⟩ := (ctx.asks_aggregateLocales files).of_error h
    exact ⟨calls, hcalls, .unprobed (hfront.trans (List.prefix_append _ [_]))⟩
  | whole h₁ h =>
    obtain ⟨first, hfirst, hasked⟩ := (ctx.asks_aggregateLocales files).of_gives h₁
    obtain ⟨calls, hcalls, hfront⟩ := (ctx.asks_aggregateWhole files).of_error h
    refine ⟨first ++ calls, ?_, .unprobed ?_⟩
    · rw [hcalls, hfirst, List.append_assoc]
    · rw [List.filter_append, hasked]
      exact (List.prefix_append_right_inj _).2 hfront
  | probe made h => exact made.customCalls usual (log_of_registered h)
  | missing made h _ => exact made.customCalls usual (log_of_registered h)
  | done made h _ => exact made.customCalls usual (log_of_registered h)

end Context

end LocaleForge
