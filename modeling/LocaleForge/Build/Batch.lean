import LocaleForge.Build.Transpile

/-!
Many jobs with a bound on the calls that are open at once. The results come in the order of the
jobs, and the first failure ends the run.
-/

namespace LocaleForge

/-- A list in chunks of `size`, of which the last may be shorter. -/
def chunks {α : Type} (size : Nat) : List α → List (List α)
  | [] => []
  | x :: xs => (x :: xs.take (size - 1)) :: chunks size (xs.drop (size - 1))
termination_by xs => xs.length
decreasing_by simp only [List.length_drop, List.length_cons]; omega

theorem flatten_chunks {α : Type} (size : Nat) (xs : List α) : (chunks size xs).flatten = xs := by
  fun_induction chunks size xs with
  | case1 => rfl
  | case2 x xs ih => rw [List.flatten_cons, ih, List.cons_append, List.take_append_drop]

theorem length_le_of_mem_chunks {α : Type} {size : Nat} (h : 0 < size) {xs c : List α}
    (hc : c ∈ chunks size xs) : c.length ≤ size := by
  fun_induction chunks size xs with
  | case1 => cases hc
  | case2 x xs ih =>
    rcases List.mem_cons.1 hc with rfl | hc
    · simp only [List.length_cons, List.length_take]
      omega
    · exact ih hc

/-- A job of a wave once it is started. -/
inductive Started where
  | opened (c : OpenCall)
  /-- Its call did not wait, so that the job has ended. -/
  | ended (target : Path)
  /-- Its start failed, which shows when its turn to end comes. -/
  | held (s : Stop)

namespace Context

/-- The most calls that a queue can be set to. -/
def maxSlots := 2305843009213693951

/-- A group of more jobs than this is a large one. It holds back the failure of a job until the jobs
before it have ended. -/
def smallGroup := 30

/-- Starts a job. A call that does not wait ends at once. -/
def start (ctx : Context) (j : Job) : Build Started := do
  let c ← ctx.openCall j
  if ctx.bundler.suspensions = 0 then
    return .ended (← ctx.closeCall c)
  else return .opened c

/-- Starts a job and catches its failure. -/
def tryStart (ctx : Context) (j : Job) : Build Started :=
  tryCatch (ctx.start j) fun s => pure (Started.held s)

/-- Starts jobs until `slots` calls are open. Gives the started ones and the rest. A failed start
ends the run at once unless failures are held back and an earlier call is open. -/
def startWave (ctx : Context) (holds : Bool) : Nat → Bool → List Job → Build (List Started × List Job)
  | _, _, [] => return ([], [])
  | 0, _, j :: js => return ([], j :: js)
  | n + 1, waiting, j :: js => do
    match ← ctx.tryStart j with
    | .opened c =>
      let (ss, rest) ← ctx.startWave holds n true js
      return (.opened c :: ss, rest)
    | .ended target =>
      let (ss, rest) ← ctx.startWave holds (n + 1) waiting js
      return (.ended target :: ss, rest)
    | .held s =>
      if holds && waiting then
        let (ss, rest) ← ctx.startWave holds (n + 1) waiting js
        return (.held s :: ss, rest)
      else throw s

/-- What a wave goes on with after a started job: the free slots, and whether a call is open. -/
def onward (holds : Bool) (slots : Nat) (waiting : Bool) : Started → Except Stop (Nat × Bool)
  | .opened _ => .ok (slots, true)
  | .ended _ => .ok (slots + 1, waiting)
  | .held s => if holds && waiting then .ok (slots + 1, waiting) else .error s

theorem startWave_nil (ctx : Context) (holds : Bool) (slots : Nat) (waiting : Bool) :
    ctx.startWave holds slots waiting [] = pure ([], []) := by
  rw [startWave]

theorem startWave_zero (ctx : Context) (holds waiting : Bool) (jobs : List Job) :
    ctx.startWave holds 0 waiting jobs = pure ([], jobs) := by
  cases jobs with
  | nil => rw [startWave]
  | cons j js => rw [startWave]

theorem startWave_cons (ctx : Context) (holds : Bool) (slots : Nat) (waiting : Bool) (j : Job)
    (js : List Job) : ctx.startWave holds (slots + 1) waiting (j :: js) = (do
      let x ← ctx.tryStart j
      match onward holds slots waiting x with
      | .ok next =>
        let r ← ctx.startWave holds next.1 next.2 js
        return (x :: r.1, r.2)
      | .error stop => throw stop) := by
  rw [startWave]
  congr 1
  funext x
  cases x with
  | opened c => rfl
  | ended target => rfl
  | held stop =>
    rw [onward]
    cases holds && waiting with
    | true => rfl
    | false => rfl

/-- Ends a started job. -/
def endStarted (ctx : Context) : Started → Build Path
  | .opened c => ctx.closeCall c
  | .ended target => return target
  | .held s => throw s

/-- Ends a started job and catches its failure. -/
def tryEnd (ctx : Context) (s : Started) : Build (Except Stop Path) :=
  tryCatch (Except.ok <$> ctx.endStarted s) fun stop => pure (.error stop)

/-- Ends the jobs of a wave in their order, up to the first failure, or from the last one back, where
all failures are held back and the one of the first job counts. -/
def endWave (ctx : Context) (backwards : Bool) (started : List Started) : Build (List Path) := do
  if backwards then
    let ends ← started.reverse.mapM ctx.tryEnd
    ends.reverse.mapM fun
      | .ok target => pure target
      | .error stop => throw stop
  else started.mapM ctx.endStarted

/-- Runs jobs in waves: those that may be open at once start in order and end, then the next ones
start. In a large group failures are held back, and each time that its calls wait turns their order
around. `n` bounds the number of waves. -/
def waves (ctx : Context) (large : Bool) (slots : Nat) : Nat → List Job → Build (List Path)
  | 0, _ => return []
  | _ + 1, [] => return []
  | n + 1, j :: js => do
    let (started, rest) ← ctx.startWave large slots false (j :: js)
    let ended ← ctx.endWave (large && ctx.bundler.suspensions % 2 == 1) started
    return ended ++ (← ctx.waves large slots n rest)

/-- Runs a group of jobs with at most `slots` open calls. -/
def runGroup (ctx : Context) (slots : Nat) (jobs : List Job) : Build (List Path) :=
  ctx.waves (smallGroup < jobs.length) slots jobs.length jobs

/-- Runs the jobs in batches; each batch waits for the end of the one before. -/
def runBatched (ctx : Context) (size : Nat) (jobs : List Job) : Build (List Path) := do
  return (← (chunks size jobs).mapM fun batch => ctx.runGroup batch.length batch).flatten

/-- Runs the jobs from one queue; there is a limit to the size that a queue can be given. -/
def runPooled (ctx : Context) (size : Nat) (jobs : List Job) : Build (List Path) :=
  if maxSlots < size then throw .panicked else ctx.runGroup size jobs

/-- Runs jobs as the settings say. -/
def runJobs (ctx : Context) (jobs : List Job) : Build (List Path) :=
  let size := max ctx.settings.batchSize 1
  match ctx.settings.batchMode with
  | .batched => ctx.runBatched size jobs
  | .pooled => ctx.runPooled size jobs

/-- Runs one job for each file below `root` that matches a pattern. -/
def transpileMany (ctx : Context) (root : Path) (pattern : String) (t : JobTemplate) :
    Build (List Path) := do
  let files ← ctx.expand root pattern
  ctx.runJobs (files.map (t.jobFor root))

end Context

end LocaleForge
