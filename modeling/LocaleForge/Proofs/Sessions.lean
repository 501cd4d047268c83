import LocaleForge.Build.Commands
import LocaleForge.Build.Interleaving
import LocaleForge.Proofs.Attempts

/-!
Sessions: what is asked of one context in turn, with changes of the tree from outside in between. The
jobs of a run end in any order. How headers are loaded is left open, so that a session with the shelf
of header texts can be compared with one in which each job reads its header file.
-/

namespace LocaleForge

/-- A way to load headers. -/
abbrev Loader := Path → Build String

/-- A job asks for its header. -/
structure Ask where
  path : Path
  /-- The tree at that time. -/
  disk : Disk
  /-- The calls that are made for it. -/
  calls : List Event
  /-- The text that the job gets. -/
  text : Except Stop String

def Loader.ask (load : Loader) (p : Path) (s : BuildState) : Ask :=
  let out := (load p).run.run s
  ⟨p, s.disk, out.2.log.drop s.log.length, out.1⟩

namespace Loader

variable (load : Loader) (p : Path) (s : BuildState)

theorem path_ask : (load.ask p s).path = p :=
  rfl

theorem disk_ask : (load.ask p s).disk = s.disk :=
  rfl

end Loader

/-- The state after calls that know nothing of the shelf. -/
def BuildState.grow (s : BuildState) (d : Disk) (console : List Console.Message) (calls : List Event) :
    BuildState :=
  ⟨d, s.shelf, console, s.log ++ calls⟩

namespace BuildState

variable (s : BuildState)

theorem grow_nil : s.grow s.disk s.console [] = s := by
  rw [grow, List.append_nil]

theorem grow_grow (d d' : Disk) (c c' : List Console.Message) (calls calls' : List Event) :
    (s.grow d c calls).grow d' c' calls' = s.grow d' c' (calls ++ calls') := by
  rw [grow, grow, grow, List.append_assoc]

end BuildState

namespace Build

variable {α β : Type}

/-- The computation goes by the tree and the messages alone, and leaves the shelf of header texts as it
is. -/
def Aloof (b : Build α) : Prop :=
  ∀ d c, ∃ r d' c' calls, ∀ s : BuildState, s.disk = d → s.console = c →
    b.run.run s = (r, s.grow d' c' calls)

theorem aloof_pure (a : α) : (pure a : Build α).Aloof := by
  refine fun d c => ⟨.ok a, d, c, [], ?_⟩
  rintro s rfl rfl
  rw [s.grow_nil]
  rfl

theorem aloof_throw (e : Stop) : (throw e : Build α).Aloof := by
  refine fun d c => ⟨.error e, d, c, [], ?_⟩
  rintro s rfl rfl
  rw [s.grow_nil]
  rfl

theorem Aloof.bind {b : Build α} {f : α → Build β} (hb : b.Aloof) (hf : ∀ a, (f a).Aloof) :
    (b >>= f).Aloof := by
  intro d c
  obtain ⟨r, d', c', calls, hb⟩ := hb d c
  cases r with
  | error e =>
    exact ⟨.error e, d', c', calls, fun s hd hc => run_bind_of_error (hb s hd hc)⟩
  | ok a =>
    obtain ⟨r, d'', c'', calls', hf⟩ := hf a d' c'
    refine ⟨r, d'', c'', calls ++ calls', fun s hd hc => ?_⟩
    rw [run_bind_of_ok (hb s hd hc), hf _ rfl rfl, s.grow_grow]

theorem aloof_note (e : Event) : (note e).Aloof := by
  refine fun d c => ⟨.ok (), d, c, [e], ?_⟩
  rintro s rfl rfl
  rfl

theorem aloof_tell (m : Console.Message) : (tell m).Aloof := by
  refine fun d c => ⟨.ok (), d, c ++ [m], [], ?_⟩
  rintro s rfl rfl
  rw [BuildState.grow, List.append_nil]
  rfl

theorem aloof_query (f : Disk → Except Failure α) : (query f).Aloof := by
  refine fun d c => ⟨(f d).mapError .failed, d, c, [], ?_⟩
  rintro s rfl rfl
  rw [run_query, s.grow_nil]

theorem aloof_alter (f : Disk → Except Failure α × Disk) : (alter f).Aloof := by
  refine fun d c => ⟨(f d).1.mapError .failed, (f d).2, c, [], ?_⟩
  rintro s rfl rfl
  rw [run_alter, BuildState.grow, List.append_nil]

end Build

namespace Context

open Build

/-- Reads a header file. -/
def readHeader (ctx : Context) : Loader := fun p =>
  if p = Job.noHeader then return "" else ctx.read p

/-- Loads the header of a job in this way and asks the bundler. -/
def openWith (ctx : Context) (load : Loader) (j : Job) : Build OpenCall := do
  let header ← load (j.headerPath ctx.settings)
  let request := Request.ofJob ctx.settings j
  note (.request request)
  return ⟨j, header, request⟩

/-- Jobs are opened with headers from the shelf. -/
theorem openCall_eq (ctx : Context) (j : Job) : ctx.openCall j = ctx.openWith ctx.header j :=
  rfl

theorem aloof_answer (ctx : Context) (r : Request) : (ctx.answer r).Aloof := by
  refine fun d c => ⟨(ctx.bundler.reply r d).1.mapError .failed, (ctx.bundler.reply r d).2, c,
    [.reply ⟨r, (ctx.bundler.reply r d).1.toOption⟩], ?_⟩
  rintro s rfl rfl
  simp only [answer, run_bind, run_get, run_note, run_alter]
  rfl

theorem aloof_closeCall (ctx : Context) (c : OpenCall) : (ctx.closeCall c).Aloof :=
  (ctx.aloof_answer c.request).bind fun _ =>
    ((aloof_note _).bind fun _ => aloof_alter _).bind fun _ => aloof_pure _

end Context

/-! ## Runs of jobs -/

namespace Interleaving

/-- One step of a run in which headers are loaded in this way, and what is asked of the loader. -/
inductive Moves (ctx : Context) (load : Loader) (slots : Nat) :
    Interleaving → List Ask → Interleaving → Prop where
  | start {ended : List Path} {later : List (List Job)} {s t : BuildState}
      {before after : List (Job × Progress)} {j : Job} {r : Except Stop OpenCall}
      (first : before.all (!·.2.isWaiting))
      (room : Group.openCalls ⟨s, before ++ (j, .waiting) :: after⟩ < slots)
      (opens : (ctx.openWith load j).run.run s = (r, t)) :
      Moves ctx load slots ⟨ended, ⟨s, before ++ (j, .waiting) :: after⟩, later⟩
        [load.ask (j.headerPath ctx.settings) s]
        ⟨ended, ⟨t, before ++ (j, .ofStart r) :: after⟩, later⟩
  | finish {ended : List Path} {later : List (List Job)} {s t : BuildState}
      {before after : List (Job × Progress)} {j : Job} {c : OpenCall} {r : Except Stop Path}
      (closes : (ctx.closeCall c).run.run s = (r, t)) :
      Moves ctx load slots ⟨ended, ⟨s, before ++ (j, .opened c) :: after⟩, later⟩ []
        ⟨ended, ⟨t, before ++ (j, .ofEnd r) :: after⟩, later⟩
  | next {ended targets : List Path} {g : Group} {jobs : List Job} {later : List (List Job)}
      (all : g.targets? = some targets) :
      Moves ctx load slots ⟨ended, g, jobs :: later⟩ [] ⟨ended ++ targets, .ofJobs g.state jobs, later⟩

/-- What a run can come to, and what is asked of the loader on the way. -/
inductive Proceeds (ctx : Context) (load : Loader) (slots : Nat) (i : Interleaving) :
    List Ask → Interleaving → Prop where
  | refl : Proceeds ctx load slots i [] i
  | step {asks new : List Ask} {j k : Interleaving} (before : Proceeds ctx load slots i asks j)
      (last : j.Moves ctx load slots new k) : Proceeds ctx load slots i (asks ++ new) k

variable {ctx : Context} {slots : Nat} {i k : Interleaving}

/-- With headers from the shelf these are the runs of jobs in which answers come in any order. -/
theorem reaches_iff : Reaches ctx slots i k ↔ ∃ asks, Proceeds ctx ctx.header slots i asks k := by
  constructor
  · intro h
    induction h with
    | refl => exact ⟨[], .refl⟩
    | step before last ih =>
      obtain ⟨asks, hbefore⟩ := ih
      cases last with
      | within step =>
        cases step with
        | @start _ _ _ _ j _ first room opens =>
          rw [ctx.openCall_eq j] at opens
          exact ⟨_, hbefore.step (.start first room opens)⟩
        | finish closes => exact ⟨_, hbefore.step (.finish closes)⟩
      | next all => exact ⟨_, hbefore.step (.next all)⟩
  · rintro ⟨asks, h⟩
    induction h with
    | refl => exact .refl
    | step before last ih =>
      cases last with
      | @start _ _ _ _ _ _ j _ first room opens =>
        rw [← ctx.openCall_eq j] at opens
        exact ih.step (.within (.start first room opens))
      | finish closes => exact ih.step (.within (.finish closes))
      | next all => exact ih.step (.next all)

end Interleaving

/-! ## Computations -/

namespace Context

/-- What a computation can come to if its jobs load headers in this way and end in any order, and what
is asked of the loader. -/
inductive Performs (ctx : Context) (load : Loader) :
    ∀ {α : Type}, Build α → BuildState → List Ask → Except Stop α × BuildState → Prop where
  | aloof {α : Type} {b : Build α} {s : BuildState} (hb : b.Aloof) :
      Performs ctx load b s [] (b.run.run s)
  | bind {α β : Type} {b : Build α} {f : α → Build β} {s t : BuildState} {asks asks' : List Ask} {a : α}
      {out : Except Stop β × BuildState} (first : Performs ctx load b s asks (.ok a, t))
      (second : Performs ctx load (f a) t asks' out) : Performs ctx load (b >>= f) s (asks ++ asks') out
  | stop {α β : Type} {b : Build α} {f : α → Build β} {s t : BuildState} {asks : List Ask} {e : Stop}
      (first : Performs ctx load b s asks (.error e, t)) : Performs ctx load (b >>= f) s asks (.error e, t)
  | untried {α : Type} {b : Build α} {h : Stop → Build α} {s t : BuildState} {asks : List Ask} {a : α}
      (first : Performs ctx load b s asks (.ok a, t)) :
      Performs ctx load (tryCatch b h) s asks (.ok a, t)
  | caught {α : Type} {b : Build α} {h : Stop → Build α} {s t : BuildState} {asks asks' : List Ask}
      {e : Stop} {out : Except Stop α × BuildState} (first : Performs ctx load b s asks (.error e, t))
      (second : Performs ctx load (h e) t asks' out) :
      Performs ctx load (tryCatch b h) s (asks ++ asks') out
  | openCall {j : Job} {s : BuildState} :
      Performs ctx load (ctx.openCall j) s [load.ask (j.headerPath ctx.settings) s]
        ((ctx.openWith load j).run.run s)
  | jobs {jobs : List Job} {s : BuildState} {asks : List Ask} {k : Interleaving} {targets : List Path}
      (run : (Interleaving.ofGroups s (ctx.settings.groups jobs)).Proceeds ctx load
        (max ctx.settings.batchSize 1) asks k)
      (all : k.results? = some targets) :
      Performs ctx load (ctx.runJobs jobs) s asks (.ok targets, k.current.state)
  | jobsFail {jobs : List Job} {s : BuildState} {asks : List Ask} {k : Interleaving} {e : Stop}
      (run : (Interleaving.ofGroups s (ctx.settings.groups jobs)).Proceeds ctx load
        (max ctx.settings.batchSize 1) asks k)
      (fails : k.Fails e) : Performs ctx load (ctx.runJobs jobs) s asks (.error e, k.current.state)

end Context

/-! ## Sessions -/

/-- What is asked of a context. -/
inductive Order where
  | transpile (j : Job)
  | runJobs (jobs : List Job)
  | aggregate (target : Path) (files : List String) (f : Format) (excludeBase : Bool)
  | build (f : Format)
  | release (plan : ReleasePlan)

/-- What comes of an order. -/
inductive Product where
  | file (p : Path)
  | files (ps : List Path)
  | reports (rs : List Report)

def Order.run (ctx : Context) : Order → Build Product
  | transpile j => do return .file (← ctx.transpile j)
  | runJobs jobs => do return .files (← ctx.runJobs jobs)
  | aggregate target files f excludeBase => do
    return .file (← ctx.aggregate target files f excludeBase)
  | build f => do return .reports (← ctx.build f)
  | release plan => do return .reports (← ctx.release plan)

/-- A part of a session: an order, or a change of the tree from outside. -/
inductive Deed where
  | order (o : Order)
  | edit (change : Disk → Disk)

/-- How an order has ended, with the tree and all messages at that time. -/
structure Upshot where
  result : Except Stop Product
  disk : Disk
  console : List Console.Message

/-- What a session comes to: how its orders end, and what is asked of the loader. An order that has
failed does not end the session. -/
inductive Context.Session (ctx : Context) (load : Loader) :
    BuildState → List Deed → List Ask → List Upshot → BuildState → Prop where
  | done {s : BuildState} : Session ctx load s [] [] [] s
  | order {s t u : BuildState} {o : Order} {deeds : List Deed} {asks asks' : List Ask}
      {r : Except Stop Product} {upshots : List Upshot}
      (performs : ctx.Performs load (o.run ctx) s asks (r, t))
      (rest : Session ctx load t deeds asks' upshots u) :
      Session ctx load s (.order o :: deeds) (asks ++ asks') (⟨r, t.disk, t.console⟩ :: upshots) u
  | edit {s u : BuildState} {change : Disk → Disk} {deeds : List Deed} {asks : List Ask}
      {upshots : List Upshot}
      (rest : Session ctx load { s with disk := change s.disk } deeds asks upshots u) :
      Session ctx load s (.edit change :: deeds) asks upshots u

end LocaleForge
