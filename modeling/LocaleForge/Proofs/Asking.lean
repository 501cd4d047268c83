import LocaleForge.Build.Commands
import LocaleForge.Proofs.Attempts

/-!
What a computation asks the bundler and the probe for. It is known beforehand where the files are given;
a failure cuts it short.
-/

namespace LocaleForge

/-- A call that another program has to answer. -/
def Event.asks : Event → Bool
  | .request _ => true
  | .probe _ => true
  | _ => false

/-- From one state to another these calls to other programs were made, in this order. -/
def BuildState.Asked (s t : BuildState) (asked : List Event) : Prop :=
  ∃ calls, t.log = s.log ++ calls ∧ calls.filter Event.asks = asked

theorem BuildState.Asked.of_log {s t : BuildState} (h : t.log = s.log) : s.Asked t [] :=
  ⟨[], h.trans (List.append_nil _).symm, rfl⟩

/-- Only the logs matter. -/
theorem BuildState.Asked.of_logs {s t u v : BuildState} {asked : List Event} (h : u.Asked v asked)
    (hlog : u.log = s.log ∧ t.log = v.log) : s.Asked t asked := by
  rw [Asked, hlog.2, ← hlog.1]
  exact h

theorem BuildState.Asked.trans {s t u : BuildState} {asked asked' : List Event} (h : s.Asked t asked)
    (h' : t.Asked u asked') : s.Asked u (asked ++ asked') := by
  obtain ⟨calls, hlog, rfl⟩ := h
  obtain ⟨calls', hlog', rfl⟩ := h'
  exact ⟨calls ++ calls', by rw [hlog', hlog, List.append_assoc], List.filter_append _ _⟩

namespace Request

/-- A request for an entry that refers to the base module and does not include it. -/
def referring (s : Settings) (f : Format) (entry : Path) : Request where
  entry := entry
  format := f
  name := unusedName
  external := baseSpellings s
  globals := baseGlobals s

/-- A request for an entry that includes all that it imports. -/
def including (f : Format) (name : String) (entry : Path) : Request where
  entry := entry
  format := f
  name := name
  external := []
  globals := []

variable (s : Settings) (f : Format)

theorem ofJob_aggregate_referring (target : Path) (entry : String) :
    ofJob s (Context.aggregateJob s entry target f true) = referring s f (s.tmpDir.join entry) := by
  cases f <;> rfl

theorem ofJob_aggregate_including (target : Path) (entry : String) :
    ofJob s (Context.aggregateJob s entry target f false) =
      including f unusedName (s.tmpDir.join entry) := by
  cases f <;> rfl

end Request

namespace Build

variable {α β : Type} {b : Build α} {asked asked' : List Event}

/-- The computation makes these calls to other programs in this order. It stops short of some of them
only when it fails. -/
def Asks (b : Build α) (asked : List Event) : Prop :=
  ∀ s, ∃ calls, (b.run.run s).2.log = s.log ++ calls ∧ calls.filter Event.asks <+: asked ∧
    ∀ a, (b.run.run s).1 = .ok a → calls.filter Event.asks = asked

theorem asks_of_log (h : ∀ s, (b.run.run s).2.log = s.log) : b.Asks [] :=
  fun s => ⟨[], (h s).trans (List.append_nil _).symm, List.nil_prefix, fun _ _ => rfl⟩

theorem asks_pure (a : α) : (pure a : Build α).Asks [] :=
  asks_of_log fun _ => rfl

theorem asks_query (f : Disk → Except Failure α) : (query f).Asks [] :=
  asks_of_log fun s => by rw [run_query]

theorem asks_alter (f : Disk → Except Failure α × Disk) : (alter f).Asks [] :=
  asks_of_log fun s => by rw [run_alter]

theorem asks_note (e : Event) : (note e).Asks ([e].filter Event.asks) :=
  fun _ => ⟨[e], rfl, List.prefix_rfl, fun _ _ => rfl⟩

theorem Asks.of_gives (hb : b.Asks asked) {s t : BuildState} {a : α} (h : b.Gives s a t) :
    s.Asked t asked := by
  obtain ⟨calls, hlog, -, hall⟩ := hb s
  rw [Gives] at h
  rw [h] at hlog hall
  exact ⟨calls, hlog, hall a rfl⟩

theorem Asks.of_error (hb : b.Asks asked) {s t : BuildState} {e : Stop}
    (h : b.run.run s = (.error e, t)) :
    ∃ calls, t.log = s.log ++ calls ∧ calls.filter Event.asks <+: asked := by
  obtain ⟨calls, hlog, hfront, -⟩ := hb s
  rw [h] at hlog
  exact ⟨calls, hlog, hfront⟩

theorem Asks.bind {f : α → Build β} (hb : b.Asks asked) (hf : ∀ a, (f a).Asks asked') :
    (b >>= f).Asks (asked ++ asked') := by
  intro s
  obtain ⟨calls, hlog, hfront, hall⟩ := hb s
  rw [run_bind]
  rcases hr : b.run.run s with ⟨r, t⟩
  rw [hr] at hlog hall
  cases r with
  | error e => exact ⟨calls, hlog, hfront.trans (List.prefix_append _ _), nofun⟩
  | ok a =>
    obtain ⟨calls', hlog', hfront', hall'⟩ := hf a t
    refine ⟨calls ++ calls', ?_, ?_, fun c hc => ?_⟩
    · rw [hlog', hlog, List.append_assoc]
    · rw [List.filter_append, hall a rfl]
      exact (List.prefix_append_right_inj asked).2 hfront'
    · rw [List.filter_append, hall a rfl, hall' c hc]

theorem asks_forM {f : α → Build PUnit} (hf : ∀ a, (f a).Asks []) (xs : List α) :
    (xs.forM f).Asks [] := by
  induction xs with
  | nil => exact asks_pure _
  | cons x xs ih => exact (hf x).bind fun _ => ih

theorem asks_mapM {f : α → Build β} {asked : α → List Event} (hf : ∀ a, (f a).Asks (asked a))
    (xs : List α) : (xs.mapM f).Asks (xs.flatMap asked) := by
  induction xs with
  | nil =>
    rw [List.mapM_nil]
    exact asks_pure []
  | cons x xs ih =>
    rw [List.mapM_cons, List.flatMap_cons]
    refine (hf x).bind fun y => ?_
    have hrest := ih.bind fun ys => asks_pure (y :: ys)
    rwa [List.append_nil] at hrest

end Build

open Build

namespace Context

variable (ctx : Context)

/-! ## Locales and aggregates -/

theorem asks_write (p : Path) (text : String) : (ctx.write p text).Asks [] :=
  (asks_note _).bind fun _ => asks_alter _

theorem asks_copy (source target : Path) : (ctx.copy source target).Asks [] :=
  (asks_note _).bind fun _ => asks_alter _

theorem asks_expand (root : Path) (pattern : String) : (ctx.expand root pattern).Asks [] :=
  (asks_note _).bind fun _ => asks_query _

theorem asks_prepareStaging : ctx.prepareStaging.Asks [] := by
  have hfound : (ctx.hasEntry ctx.settings.tmpDir).Asks [] := asks_of_log fun _ => rfl
  refine hfound.bind fun found => ?_
  cases found with
  | true => exact asks_pure 0
  | false =>
    refine (ctx.asks_expand _ _).bind fun files => (?_ : Build.Asks _ ([] ++ []))
    exact (asks_forM (fun file => ctx.asks_copy _ _) files).bind fun _ => asks_pure _

theorem asks_header (p : Path) : (ctx.header p).Asks [] := by
  intro s
  rw [run_header]
  split
  · exact asks_pure "" s
  · cases s.shelf.get? p with
    | some text => exact asks_pure text s
    | none =>
      -- Only the read is logged, whether or not it succeeds.
      cases ctx.storage.read p s.disk with
      | ok text => exact ⟨[.read p], rfl, List.prefix_rfl, fun _ _ => rfl⟩
      | error f => exact ⟨[.read p], rfl, List.prefix_rfl, fun _ _ => rfl⟩

theorem asks_transpile (j : Job) : (ctx.transpile j).Asks [.request (.ofJob ctx.settings j)] := by
  have hopen : (ctx.openCall j).Asks [.request (.ofJob ctx.settings j)] :=
    (ctx.asks_header _).bind fun _ => (asks_note _).bind fun _ => asks_pure _
  have hanswer : ∀ r, (ctx.answer r).Asks [] := by
    intro r s
    rw [answer, run_bind, run_get]
    simp only [run_bind, run_note, run_alter]
    exact ⟨[.reply ⟨r, _⟩], rfl, List.prefix_rfl, fun _ _ => rfl⟩
  exact hopen.bind fun c => (hanswer _).bind fun _ => (ctx.asks_write _ _).bind fun _ => asks_pure _

/-- Jobs that run one after another are requested in their order. -/
theorem asks_transpiles (jobs : List Job) :
    (jobs.mapM ctx.transpile).Asks (jobs.map fun j => .request (.ofJob ctx.settings j)) := by
  rw [List.map_eq_flatMap]
  exact asks_mapM ctx.asks_transpile jobs

/-- An aggregate is one request, for the entry that bears the name of the target. -/
theorem asks_aggregate {target : Path} {entry : String} (h : target.fileName? = some entry)
    (files : List String) (f : Format) (excludeBase : Bool) :
    (ctx.aggregate target files f excludeBase).Asks
      [.request (.ofJob ctx.settings (aggregateJob ctx.settings entry target f excludeBase))] := by
  rw [aggregate, h]
  exact ctx.asks_prepareStaging.bind fun _ => (ctx.asks_write _ _).bind fun _ => ctx.asks_transpile _

end Context

namespace Stage

variable (ctx : Context)

theorem asks_single (j : Job) : (single ctx j).run.Asks [.request (.ofJob ctx.settings j)] :=
  (ctx.asks_transpile j).bind fun target => asks_pure [target]

theorem asks_aggregate {target : Path} {entry : String} (h : target.fileName? = some entry)
    (f : Format) (excludeBase : Bool) : (aggregate ctx target none f excludeBase).run.Asks
      [.request (.ofJob ctx.settings (Context.aggregateJob ctx.settings entry target f excludeBase))] :=
  (ctx.asks_expand _ _).bind fun files =>
    (ctx.asks_aggregate h files f excludeBase).bind fun target => asks_pure [target]

end Stage

end LocaleForge
