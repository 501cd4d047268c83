import LocaleForge.Proofs.Loading
import LocaleForge.Proofs.Sequence

/-!
Calls that are closed one after another up to the first failure. What comes of it is told by the tree
alone, so it does not matter how many of the calls are opened ahead: jobs that run in turn, waves and
batches differ in their requests only.
-/

namespace LocaleForge

/-- What comes of closing calls one after another. -/
structure Turn where
  result : Except Stop (List Path)
  disk : Disk
  /-- How many calls have been closed; a failing one counts. -/
  closed : Nat
  /-- The paths that have been written to. -/
  written : List Path

/-- Goes on with more calls, if none has failed yet. -/
def Turn.andThen (a : Turn) (b : Disk → Turn) : Turn :=
  match a.result with
  | .ok targets => {
      result := (b a.disk).result.map (targets ++ ·)
      disk := (b a.disk).disk
      closed := a.closed + (b a.disk).closed
      written := a.written ++ (b a.disk).written }
  | .error _ => a

namespace Context

/-- Closes one call. -/
def closing (ctx : Context) (c : OpenCall) (d : Disk) : Turn where
  result := ((ctx.closeCall c).run.run (.fresh d)).1.map ([·])
  disk := ((ctx.closeCall c).run.run (.fresh d)).2.disk
  closed := 1
  written := ((ctx.closeCall c).run.run (.fresh d)).2.log.filterMap Event.written?

/-- Closes calls in their order. -/
def inTurn (ctx : Context) : List OpenCall → Disk → Turn
  | [], d => ⟨.ok [], d, 0, []⟩
  | c :: cs, d => (ctx.closing c d).andThen (ctx.inTurn cs)

end Context

namespace Turn

variable {a : Turn} {targets : List Path} {stop : Stop} {b c : Disk → Turn}

theorem andThen_of_ok (h : a.result = .ok targets) : a.andThen b = {
    result := (b a.disk).result.map (targets ++ ·)
    disk := (b a.disk).disk
    closed := a.closed + (b a.disk).closed
    written := a.written ++ (b a.disk).written } := by
  rw [andThen, h]

theorem andThen_of_error (h : a.result = .error stop) : a.andThen b = a := by
  rw [andThen, h]

theorem andThen_assoc (a : Turn) (b c : Disk → Turn) :
    (a.andThen b).andThen c = a.andThen fun d => (b d).andThen c := by
  cases ha : a.result with
  | error stop => rw [andThen_of_error ha, andThen_of_error ha, andThen_of_error ha]
  | ok targets =>
    rw [andThen_of_ok ha, andThen_of_ok ha]
    cases hb : (b a.disk).result with
    | error stop =>
      simp only [Except.map]
      rw [andThen_of_error rfl, andThen_of_error hb, hb]
    | ok targets' =>
      simp only [Except.map]
      rw [andThen_of_ok rfl, andThen_of_ok hb]
      simp only [Nat.add_assoc, List.append_assoc, mk.injEq, and_self, and_true]
      cases (c (b a.disk).disk).result with
      | error stop => rfl
      | ok targets'' => simp only [Except.map]

end Turn

namespace Context

variable {ctx : Context}

theorem inTurn_append (cs cs' : List OpenCall) (d : Disk) :
    ctx.inTurn (cs ++ cs') d = (ctx.inTurn cs d).andThen (ctx.inTurn cs') := by
  induction cs generalizing d with
  | nil =>
    rw [inTurn, Turn.andThen_of_ok rfl, List.nil_append]
    simp only [Nat.zero_add, List.nil_append]
    cases h : (ctx.inTurn cs' d).result <;> simp only [Except.map, ← h]
  | cons c cs ih =>
    rw [List.cons_append, inTurn, inTurn, Turn.andThen_assoc]
    exact congrArg _ (funext ih)

/-- The first calls are closed, and if none of them fails the others. -/
theorem inTurn_split (call : Job → OpenCall) (js : List Job) (n : Nat) (d : Disk) :
    ctx.inTurn (js.map call) d =
      (ctx.inTurn ((js.take n).map call) d).andThen (ctx.inTurn ((js.drop n).map call)) := by
  rw [← inTurn_append, ← List.map_append, List.take_append_drop]

/-- All calls are closed if none fails. -/
theorem closed_inTurn_of_ok {cs : List OpenCall} {d : Disk} {targets : List Path}
    (h : (ctx.inTurn cs d).result = .ok targets) : (ctx.inTurn cs d).closed = cs.length := by
  induction cs generalizing d targets with
  | nil => rfl
  | cons c cs ih =>
    rw [inTurn] at h ⊢
    cases hc : (ctx.closing c d).result with
    | error stop =>
      rw [Turn.andThen_of_error hc, hc] at h
      cases h
    | ok first =>
      rw [Turn.andThen_of_ok hc] at h ⊢
      cases hr : (ctx.inTurn cs (ctx.closing c d).disk).result with
      | error stop =>
        rw [hr] at h
        cases h
      | ok rest => rw [ih hr, List.length_cons, closing, Nat.add_comm]

theorem closed_inTurn_le (ctx : Context) (cs : List OpenCall) (d : Disk) :
    (ctx.inTurn cs d).closed ≤ cs.length := by
  induction cs generalizing d with
  | nil => exact Nat.le_refl 0
  | cons c cs ih =>
    rw [inTurn, List.length_cons]
    cases hc : (ctx.closing c d).result with
    | error stop =>
      rw [Turn.andThen_of_error hc]
      exact Nat.le_add_left 1 _
    | ok first =>
      rw [Turn.andThen_of_ok hc]
      have hrest := ih (ctx.closing c d).disk
      have hone : (ctx.closing c d).closed = 1 := rfl
      simp only
      omega

theorem closed_inTurn_pos (ctx : Context) {cs : List OpenCall} (h : cs ≠ []) (d : Disk) :
    0 < (ctx.inTurn cs d).closed := by
  obtain ⟨c, cs, rfl⟩ := List.exists_cons_of_ne_nil h
  rw [inTurn]
  have hone : (ctx.closing c d).closed = 1 := rfl
  cases hc : (ctx.closing c d).result with
  | error stop =>
    rw [Turn.andThen_of_error hc, hone]
    exact Nat.zero_lt_one
  | ok first =>
    rw [Turn.andThen_of_ok hc]
    simp only
    omega

/-! ## Runs that come to a turn -/

/-- From the state the computation comes to what the turn says, by these requests. -/
def Comes (ctx : Context) (jobs : List Job) (s : BuildState) (region : Location → Prop)
    (b : Build (List Path)) (t : BuildState) (o : Turn) (requests : List Request) : Prop :=
  ∃ u, b.run.run t = (o.result, u) ∧ u.disk = o.disk ∧ ctx.Loaded jobs s region u ∧
    t.Calls u requests o.written

variable {jobs js : List Job} {s t u : BuildState} {region : Location → Prop} {j : Job}
  {b b' : Build (List Path)} {o : Turn} {o' : Disk → Turn} {requests requests' : List Request}

/-- If the first turn ends well, the second one follows. -/
theorem Comes.append (h : ctx.Comes jobs s region b t o requests)
    (h' : ∀ u, ctx.Loaded jobs s region u → u.disk = o.disk → (∃ targets, o.result = .ok targets) →
      ctx.Comes jobs s region b' u (o' o.disk) requests') :
    ctx.Comes jobs s region (do return (← b) ++ (← b')) t (o.andThen o')
      (requests ++ if o.result.toBool then requests' else []) := by
  obtain ⟨u, hrun, hdisk, hloaded, hcalls⟩ := h
  cases ho : o.result with
  | error stop =>
    rw [Turn.andThen_of_error ho]
    refine ⟨u, ?_, hdisk, hloaded, ?_⟩
    · rw [Build.run_bind, hrun, ho]
    · simpa only [Except.toBool, Bool.false_eq_true, if_false, List.append_nil] using hcalls
  | ok targets =>
    obtain ⟨v, hrun', hdisk', hloaded', hcalls'⟩ := h' u hloaded hdisk ⟨targets, ho⟩
    rw [Turn.andThen_of_ok ho]
    refine ⟨v, ?_, hdisk', hloaded', hcalls.trans hcalls'⟩
    rw [Build.run_bind, hrun, ho]
    simp only [Build.run_bind, hrun']
    cases (o' o.disk).result <;> rfl

/-- What is opened first comes before the turn. -/
theorem Comes.after {α : Type} {open' : Build α} {a : α} {f : α → Build (List Path)}
    (hopen : open'.Gives t a u) (hcalls : t.Calls u requests [])
    (h : ctx.Comes jobs s region (f a) u o requests') :
    ctx.Comes jobs s region (open' >>= f) t o (requests ++ requests') := by
  obtain ⟨v, hrun, hdisk, hloaded, hcalls'⟩ := h
  refine ⟨v, ?_, hdisk, hloaded, hcalls.trans hcalls'⟩
  rw [Build.run_bind_of_ok hopen, hrun]

theorem run_closeCall_fresh (ctx : Context) (c : OpenCall) (t : BuildState) :
    (ctx.closeCall c).run.run t =
      (((ctx.closeCall c).run.run (.fresh t.disk)).1, { t with
        disk := ((ctx.closeCall c).run.run (.fresh t.disk)).2.disk
        log := t.log ++ ((ctx.closeCall c).run.run (.fresh t.disk)).2.log }) := by
  rw [run_closeCall, run_closeCall]
  simp only [BuildState.fresh]
  cases (ctx.bundler.reply c.request t.disk).1 <;> rfl

/-- A loaded job's call is closed as in a turn. -/
theorem comes_closeCall (independent : ctx.Independent jobs s region)
    (h : ctx.Loaded jobs s region t) (hj : j ∈ jobs) :
    ctx.Comes jobs s region (do return [← ctx.closeCall (ctx.callFor s j)]) t
      (ctx.closing (ctx.callFor s j) t.disk) [] := by
  rcases hc : (ctx.closeCall (ctx.callFor s j)).run.run t with ⟨r, u⟩
  have hloaded := h.closeCall independent hj hc
  have hfresh := run_closeCall_fresh ctx (ctx.callFor s j) t
  rw [hc] at hfresh
  obtain ⟨hr, hu⟩ := Prod.mk.inj hfresh
  refine ⟨u, ?_, ?_, hloaded, _, by rw [hu], ?_, rfl⟩
  · rw [Build.run_bind, hc, closing, ← hr]
    cases r <;> rfl
  · rw [hu]
    rfl
  · obtain ⟨calls, hlog, hadv⟩ := advances_of_closeCall (j := j) hc
    have hsame : calls = ((ctx.closeCall (ctx.callFor s j)).run.run (.fresh t.disk)).2.log := by
      rw [hu] at hlog
      exact (List.append_cancel_left hlog).symm
    rw [← hsame]
    cases hadv' : r with
    | ok target =>
      rw [hadv'] at hadv
      cases hadv
      rfl
    | error stop =>
      rw [hadv'] at hadv
      cases hadv <;> rfl

theorem mapM_cons_eq {α : Type} (f : α → Build Path) (x : α) (xs : List α) :
    (x :: xs).mapM f = (do return (← (do return [← f x])) ++ (← xs.mapM f)) := by
  rw [List.mapM_cons]
  simp only [bind_assoc, pure_bind, List.cons_append, List.nil_append]

/-- Open calls are closed as in a turn. -/
theorem comes_closeAll (independent : ctx.Independent jobs s region)
    (h : ctx.Loaded jobs s region t) (hjs : ∀ j ∈ js, j ∈ jobs) :
    ctx.Comes jobs s region ((js.map (ctx.callFor s)).mapM ctx.closeCall) t
      (ctx.inTurn (js.map (ctx.callFor s)) t.disk) [] := by
  induction js generalizing t with
  | nil => exact ⟨t, rfl, rfl, h, .refl t⟩
  | cons j js ih =>
    obtain ⟨hj, hrest⟩ := List.forall_mem_cons.1 hjs
    rw [List.map_cons, mapM_cons_eq, inTurn]
    have hfirst := comes_closeCall independent h hj
    have hall := hfirst.append fun u hu hdisk _ => hdisk ▸ ih hu hrest
    simpa only [ite_self, List.append_nil] using hall

/-! ## Jobs in turn -/

theorem comes_transpile (independent : ctx.Independent jobs s region)
    (h : ctx.Loaded jobs s region t) (hj : j ∈ jobs) :
    ctx.Comes jobs s region (do return [← ctx.transpile j]) t
      (ctx.closing (ctx.callFor s j) t.disk) [.ofJob ctx.settings j] := by
  obtain ⟨u, hopen, hdisk, hu, hcalls⟩ := h.openCall independent.usual hj
  have hclose := comes_closeCall independent hu hj
  rw [hdisk] at hclose
  have hafter := hclose.after (f := fun c => do return [← ctx.closeCall c]) hopen hcalls
  rw [List.append_nil] at hafter
  simpa only [transpile, bind_assoc] using hafter

/-- Jobs that run one after another make the requests of those that are closed. -/
theorem comes_mapM_transpile (independent : ctx.Independent jobs s region)
    (h : ctx.Loaded jobs s region t) (hjs : ∀ j ∈ js, j ∈ jobs) :
    ctx.Comes jobs s region (js.mapM ctx.transpile) t (ctx.inTurn (js.map (ctx.callFor s)) t.disk)
      ((js.take (ctx.inTurn (js.map (ctx.callFor s)) t.disk).closed).map (.ofJob ctx.settings)) := by
  induction js generalizing t with
  | nil => exact ⟨t, rfl, rfl, h, .refl t⟩
  | cons j js ih =>
    obtain ⟨hj, hrest⟩ := List.forall_mem_cons.1 hjs
    rw [List.map_cons, mapM_cons_eq, inTurn]
    have hone : (ctx.closing (ctx.callFor s j) t.disk).closed = 1 := rfl
    have hall := (comes_transpile independent h hj).append fun u hu hdisk _ => hdisk ▸ ih hu hrest
    cases hr : (ctx.closing (ctx.callFor s j) t.disk).result with
    | error stop =>
      rw [hr, Turn.andThen_of_error hr] at hall
      rw [Turn.andThen_of_error hr, hone]
      exact hall
    | ok targets =>
      rw [hr, Turn.andThen_of_ok hr] at hall
      rw [Turn.andThen_of_ok hr, hone, Nat.add_comm 1, List.take_succ_cons]
      rw [hone, Nat.add_comm 1] at hall
      exact hall

/-! ## Waves -/

/-- The end of the wave that the last of so many calls is in. -/
def waveEnd (size closed : Nat) : Nat :=
  size * ((closed - 1) / size + 1)

theorem le_waveEnd (size closed : Nat) : size ≤ waveEnd size closed :=
  Nat.le_mul_of_pos_right size (Nat.succ_pos _)

theorem waveEnd_first {size closed : Nat} (h : closed ≤ size) : waveEnd size closed = size := by
  rcases Nat.eq_zero_or_pos size with rfl | hpos
  · rw [waveEnd, Nat.zero_mul]
  · rw [waveEnd, Nat.div_eq_of_lt (by omega), Nat.zero_add, Nat.mul_one]

theorem waveEnd_add {size closed : Nat} (hsize : 0 < size) (h : 0 < closed) :
    waveEnd size (size + closed) = size + waveEnd size closed := by
  rw [waveEnd, waveEnd, Nat.add_sub_assoc h, Nat.add_div_left _ hsize, Nat.mul_succ, Nat.add_comm]

/-- The jobs of the first wave, and if it ends well those of the waves that follow, are all jobs up to
the end of a wave. -/
theorem take_waveEnd (ctx : Context) (call : Job → OpenCall) (js : List Job) {size : Nat}
    (hsize : 0 < size) (d : Disk) :
    (js.take size ++ if (ctx.inTurn ((js.take size).map call) d).result.toBool then
      (js.drop size).take (waveEnd size (ctx.inTurn ((js.drop size).map call)
        (ctx.inTurn ((js.take size).map call) d).disk).closed) else []) =
      js.take (waveEnd size (ctx.inTurn (js.map call) d).closed) := by
  rw [inTurn_split call js size]
  have hle := closed_inTurn_le ctx ((js.take size).map call) d
  rw [List.length_map, List.length_take] at hle
  cases hr : (ctx.inTurn ((js.take size).map call) d).result with
  | error stop =>
    have hfirst := waveEnd_first (Nat.le_trans hle (Nat.min_le_left size js.length))
    rw [Turn.andThen_of_error hr, hfirst]
    exact List.append_nil _
  | ok targets =>
    rw [Turn.andThen_of_ok hr, closed_inTurn_of_ok hr, List.length_map, List.length_take]
    simp only [Except.toBool, if_true]
    by_cases hrest : js.drop size = []
    · have hlength : js.length ≤ size := List.drop_eq_nil_iff.1 hrest
      rw [hrest, List.take_nil, List.append_nil, List.take_of_length_le hlength,
        List.take_of_length_le (Nat.le_trans hlength (le_waveEnd _ _))]
    · have hlength : size ≤ js.length := by
        refine Nat.le_of_not_lt fun hlt => hrest ?_
        exact List.drop_eq_nil_iff.2 (Nat.le_of_lt hlt)
      have hne : (js.drop size).map call ≠ [] := mt List.map_eq_nil_iff.1 hrest
      have hpos := closed_inTurn_pos ctx hne (ctx.inTurn ((js.take size).map call) d).disk
      rw [Nat.min_eq_left hlength, waveEnd_add hsize hpos, List.take_add]

/-- With calls that wait, a wave opens as many calls as there are slots. -/
theorem Loaded.startWave (waits : ctx.bundler.suspensions ≠ 0) (h : ctx.Loaded jobs s region t)
    (usual : ctx.storage = .disk) (hjs : ∀ j ∈ js, j ∈ jobs) (holds : Bool) (slots : Nat)
    (waiting : Bool) :
    ∃ u, (ctx.startWave holds slots waiting js).Gives t
        (((js.take slots).map (ctx.callFor s)).map .opened, js.drop slots) u ∧
      u.disk = t.disk ∧ ctx.Loaded jobs s region u ∧
      t.Calls u ((js.take slots).map (.ofJob ctx.settings)) [] := by
  induction js generalizing t slots waiting with
  | nil =>
    rw [startWave_nil, List.take_nil, List.drop_nil]
    exact ⟨t, rfl, rfl, h, .refl t⟩
  | cons j js ih =>
    cases slots with
    | zero =>
      rw [startWave_zero]
      exact ⟨t, rfl, rfl, h, .refl t⟩
    | succ n =>
      obtain ⟨hj, hrest⟩ := List.forall_mem_cons.1 hjs
      obtain ⟨u, hopen, hdisk, hu, hcalls⟩ := h.openCall usual hj
      have hstart : (ctx.tryStart j).Gives t (.opened (ctx.callFor s j)) u := by
        rw [tryStart, Build.gives_tryCatch_iff, start]
        refine .inl (hopen.bind ?_)
        rw [if_neg waits]
        exact Build.gives_pure _ u
      obtain ⟨v, hwave, hdisk', hv, hcalls'⟩ := ih hu hrest n true
      refine ⟨v, ?_, hdisk'.trans hdisk, hv, hcalls.trans hcalls'⟩
      rw [startWave_cons]
      exact hstart.bind (hwave.bind (Build.gives_pure _ v))

theorem endWave_opened (calls : List OpenCall) :
    ctx.endWave false (calls.map .opened) = calls.mapM ctx.closeCall := by
  rw [endWave, if_neg Bool.false_ne_true, List.mapM_map]
  rfl

/-- Jobs that run in waves of which each ends in the order of the jobs come to what they come to in
turn. The requests are those of all waves that have started. -/
theorem comes_waves (waits : ctx.bundler.suspensions ≠ 0)
    (independent : ctx.Independent jobs s region) {large : Bool}
    (forward : (large && ctx.bundler.suspensions % 2 == 1) = false) {slots : Nat} (hslots : 0 < slots)
    (n : Nat) (hn : js.length ≤ n) (h : ctx.Loaded jobs s region t) (hjs : ∀ j ∈ js, j ∈ jobs) :
    ctx.Comes jobs s region (ctx.waves large slots n js) t
      (ctx.inTurn (js.map (ctx.callFor s)) t.disk)
      ((js.take (waveEnd slots (ctx.inTurn (js.map (ctx.callFor s)) t.disk).closed)).map
        (.ofJob ctx.settings)) := by
  induction n generalizing js t with
  | zero =>
    obtain rfl := List.eq_nil_of_length_eq_zero (Nat.le_zero.1 hn)
    rw [waves, List.take_nil]
    exact ⟨t, rfl, rfl, h, .refl t⟩
  | succ n ih =>
    cases js with
    | nil =>
      rw [waves, List.take_nil]
      exact ⟨t, rfl, rfl, h, .refl t⟩
    | cons j js =>
      obtain ⟨u, hstart, hdisk, hu, hcalls⟩ := h.startWave waits independent.usual hjs large slots false
      have htake : ∀ k ∈ (j :: js).take slots, k ∈ jobs := fun k hk => hjs k (List.mem_of_mem_take hk)
      have hdrop : ∀ k ∈ (j :: js).drop slots, k ∈ jobs := fun k hk => hjs k (List.mem_of_mem_drop hk)
      have hlength : ((j :: js).drop slots).length ≤ n := by
        simp only [List.length_drop, List.length_cons] at hn ⊢
        omega
      -- A failure in the first wave ends the run; else the rest comes in turn by induction.
      have hwave := (comes_closeAll independent hu htake).append
        fun v hv hdisk' _ => hdisk' ▸ ih hlength hv hdrop
      rw [← endWave_opened, ← forward, hdisk] at hwave
      rw [waves, ← take_waveEnd ctx (ctx.callFor s) (j :: js) hslots t.disk, List.map_append,
        apply_ite (List.map _), List.map_nil, inTurn_split (ctx.callFor s) (j :: js) slots]
      exact hwave.after hstart hcalls

/-! ## Batches -/

theorem chunks_cons {α : Type} {size : Nat} (hsize : 0 < size) (x : α) (xs : List α) :
    chunks size (x :: xs) = (x :: xs).take size :: chunks size ((x :: xs).drop size) := by
  obtain ⟨n, rfl⟩ := Nat.exists_eq_add_one.2 hsize
  rw [chunks, List.take_succ_cons, List.drop_succ_cons, Nat.add_sub_cancel]

theorem runBatched_cons {size : Nat} (hsize : 0 < size) (j : Job) (js : List Job) :
    ctx.runBatched size (j :: js) = (do
      return (← ctx.runGroup ((j :: js).take size).length ((j :: js).take size)) ++
        (← ctx.runBatched size ((j :: js).drop size))) := by
  simp only [runBatched, chunks_cons hsize, List.mapM_cons, bind_assoc, pure_bind, List.flatten_cons]

/-- Jobs that run in batches of which each is a wave come to what they come to in turn. -/
theorem comes_batches (waits : ctx.bundler.suspensions ≠ 0)
    (independent : ctx.Independent jobs s region) {size : Nat} (hsize : 0 < size) (n : Nat)
    (hn : js.length ≤ n)
    (forward : ∀ batch ∈ chunks size js,
      (decide (smallGroup < batch.length) && ctx.bundler.suspensions % 2 == 1) = false)
    (h : ctx.Loaded jobs s region t) (hjs : ∀ j ∈ js, j ∈ jobs) :
    ctx.Comes jobs s region (ctx.runBatched size js) t
      (ctx.inTurn (js.map (ctx.callFor s)) t.disk)
      ((js.take (waveEnd size (ctx.inTurn (js.map (ctx.callFor s)) t.disk).closed)).map
        (.ofJob ctx.settings)) := by
  induction n generalizing js t with
  | zero =>
    obtain rfl := List.eq_nil_of_length_eq_zero (Nat.le_zero.1 hn)
    rw [runBatched, chunks, List.take_nil]
    exact ⟨t, rfl, rfl, h, .refl t⟩
  | succ n ih =>
    cases js with
    | nil =>
      rw [runBatched, chunks, List.take_nil]
      exact ⟨t, rfl, rfl, h, .refl t⟩
    | cons j js =>
      rw [chunks_cons hsize] at forward
      obtain ⟨hfirst, hlater⟩ := List.forall_mem_cons.1 forward
      have htake : ∀ k ∈ (j :: js).take size, k ∈ jobs := fun k hk => hjs k (List.mem_of_mem_take hk)
      have hdrop : ∀ k ∈ (j :: js).drop size, k ∈ jobs := fun k hk => hjs k (List.mem_of_mem_drop hk)
      have hlength : ((j :: js).drop size).length ≤ n := by
        simp only [List.length_drop, List.length_cons] at hn ⊢
        omega
      have hslots : 0 < ((j :: js).take size).length := by
        simp only [List.length_take, List.length_cons]
        omega
      have hbatch := comes_waves waits independent hfirst hslots _ (Nat.le_refl _) h htake
      rw [List.take_of_length_le (le_waveEnd _ _)] at hbatch
      have hall := hbatch.append fun v hv hdisk _ => hdisk ▸ ih hlength hlater hv hdrop
      rw [runBatched_cons hsize, ← take_waveEnd ctx (ctx.callFor s) (j :: js) hsize t.disk,
        List.map_append, apply_ite (List.map _), List.map_nil,
        inTurn_split (ctx.callFor s) (j :: js) size]
      exact hall

/-! ## Runs of jobs -/

/-- Every wave ends in the order of its jobs: no group is a large one, or the waits of a call turn its
order around an even number of times. -/
def EndsForward (ctx : Context) (jobs : List Job) : Prop :=
  ctx.bundler.suspensions % 2 = 0 ∨ ∀ group ∈ ctx.settings.groups jobs, group.length ≤ smallGroup

theorem EndsForward.forward (h : ctx.EndsForward jobs) {group : List Job}
    (hg : group ∈ ctx.settings.groups jobs) :
    (decide (smallGroup < group.length) && ctx.bundler.suspensions % 2 == 1) = false := by
  rcases h with h | h
  · rw [h]
    exact Bool.and_false _
  · rw [decide_eq_false (Nat.not_lt.2 (h group hg)), Bool.false_and]

/-- How many jobs have made their requests when so many calls have been closed. -/
def requested (ctx : Context) (closed : Nat) : Nat :=
  if ctx.bundler.suspensions = 0 then closed else waveEnd (max ctx.settings.batchSize 1) closed

/-- However long the calls wait, a run of jobs comes to what the jobs come to in turn. -/
theorem comes_runJobs (limit : ctx.settings.batchSize ≤ maxSlots) (forward : ctx.EndsForward jobs)
    (independent : ctx.Independent jobs s region) (h : ctx.Loaded jobs s region t) :
    ctx.Comes jobs s region (ctx.runJobs jobs) t
      (ctx.inTurn (jobs.map (ctx.callFor s)) t.disk)
      ((jobs.take (ctx.requested (ctx.inTurn (jobs.map (ctx.callFor s)) t.disk).closed)).map
        (.ofJob ctx.settings)) := by
  have hall : ∀ j ∈ jobs, j ∈ jobs := fun _ hj => hj
  rw [requested]
  split
  case isTrue now =>
    rw [runJobs_eq now limit]
    exact comes_mapM_transpile independent h hall
  case isFalse waits =>
    have room : 0 < max ctx.settings.batchSize 1 := by omega
    have hgroups := fun group (hg : group ∈ ctx.settings.groups jobs) => forward.forward hg
    rw [Settings.groups] at hgroups
    rw [runJobs]
    cases hmode : ctx.settings.batchMode with
    | batched =>
      rw [hmode] at hgroups
      exact comes_batches waits independent room _ (Nat.le_refl _) hgroups h hall
    | pooled =>
      rw [hmode] at hgroups
      have hlimit : ¬ maxSlots < max ctx.settings.batchSize 1 := by
        rw [maxSlots] at limit ⊢
        omega
      simp only [runPooled, if_neg hlimit]
      exact comes_waves waits independent (hgroups jobs List.mem_cons_self) room _ (Nat.le_refl _) h
        hall

end Context

end LocaleForge
