import LocaleForge.Build.Batch

/-!
Runs of jobs in which the bundler's answers come in any order. A step starts the first job that
waits, if a call is free, or ends any open call; the next group starts when each job of this one has
written its file. A run may stop as soon as a job has failed. The waves of `Context.runGroup` are
one order among these.
-/

namespace LocaleForge

/-- How far a job has come. -/
inductive Progress where
  | waiting
  | opened (c : OpenCall)
  | written (target : Path)
  | failed (s : Stop)

namespace Progress

def isWaiting : Progress → Bool
  | waiting => true
  | _ => false

def isOpen : Progress → Bool
  | opened _ => true
  | _ => false

def target? : Progress → Option Path
  | written target => some target
  | _ => none

/-- What comes of starting a job. -/
def ofStart : Except Stop OpenCall → Progress
  | .ok c => opened c
  | .error s => failed s

/-- What comes of ending an open call. -/
def ofEnd : Except Stop Path → Progress
  | .ok target => written target
  | .error s => failed s

end Progress

/-- The jobs that may be open together, and the state that their run has come to. -/
structure Group where
  state : BuildState
  jobs : List (Job × Progress)

namespace Group

/-- A group of which no job is started. -/
def ofJobs (s : BuildState) (jobs : List Job) : Group :=
  ⟨s, jobs.map (·, .waiting)⟩

/-- The number of open calls. -/
def openCalls (g : Group) : Nat :=
  g.jobs.countP (·.2.isOpen)

/-- The targets in the order of the jobs, once each job has written its file. -/
def targets? (g : Group) : Option (List Path) :=
  g.jobs.mapM (·.2.target?)

/-- One step of a group with so many slots for open calls. -/
inductive Step (ctx : Context) (slots : Nat) : Group → Group → Prop where
  | start {s t : BuildState} {before after : List (Job × Progress)} {j : Job}
      {r : Except Stop OpenCall} (first : before.all (!·.2.isWaiting))
      (room : openCalls ⟨s, before ++ (j, .waiting) :: after⟩ < slots)
      (opens : (ctx.openCall j).run.run s = (r, t)) :
      Step ctx slots ⟨s, before ++ (j, .waiting) :: after⟩ ⟨t, before ++ (j, .ofStart r) :: after⟩
  | finish {s t : BuildState} {before after : List (Job × Progress)} {j : Job} {c : OpenCall}
      {r : Except Stop Path} (closes : (ctx.closeCall c).run.run s = (r, t)) :
      Step ctx slots ⟨s, before ++ (j, .opened c) :: after⟩ ⟨t, before ++ (j, .ofEnd r) :: after⟩

end Group

/-- A run of groups one after another: the targets of those that have ended, the group that runs, and
the jobs of those to come. -/
structure Interleaving where
  ended : List Path
  current : Group
  later : List (List Job)

namespace Interleaving

/-- A run before its first step. -/
def ofGroups (s : BuildState) : List (List Job) → Interleaving
  | [] => ⟨[], .ofJobs s [], []⟩
  | jobs :: later => ⟨[], .ofJobs s jobs, later⟩

/-- One step of a run. -/
inductive Step (ctx : Context) (slots : Nat) : Interleaving → Interleaving → Prop where
  | within {ended : List Path} {g h : Group} {later : List (List Job)} (step : g.Step ctx slots h) :
      Step ctx slots ⟨ended, g, later⟩ ⟨ended, h, later⟩
  | next {ended targets : List Path} {g : Group} {jobs : List Job} {later : List (List Job)}
      (all : g.targets? = some targets) :
      Step ctx slots ⟨ended, g, jobs :: later⟩ ⟨ended ++ targets, .ofJobs g.state jobs, later⟩

/-- What a run can come to. -/
inductive Reaches (ctx : Context) (slots : Nat) (i : Interleaving) : Interleaving → Prop where
  | refl : Reaches ctx slots i i
  | step {j k : Interleaving} (before : Reaches ctx slots i j) (last : j.Step ctx slots k) :
      Reaches ctx slots i k

/-- The results in the order of the jobs, once all groups have ended. -/
def results? (i : Interleaving) : Option (List Path) :=
  if i.later.isEmpty then i.current.targets?.map (i.ended ++ ·) else none

/-- A job has failed in this way. -/
def Fails (i : Interleaving) (s : Stop) : Prop :=
  ∃ j, (j, Progress.failed s) ∈ i.current.jobs

end Interleaving

/-- The groups in which jobs run: in batched mode one batch after another, in pooled mode all
together. -/
def Settings.groups (s : Settings) (jobs : List Job) : List (List Job) :=
  match s.batchMode with
  | .batched => chunks (max s.batchSize 1) jobs
  | .pooled => [jobs]

end LocaleForge
