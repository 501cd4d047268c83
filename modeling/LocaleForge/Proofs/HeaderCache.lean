import LocaleForge.Proofs.OwnSessions
import LocaleForge.Proofs.Sharing

/-!
The shelf of header texts does not show. As long as header files stay as they were, a session cannot be
told from one in which each job reads its header file.
-/

namespace LocaleForge

/-- The same tree, messages and calls, those that read files apart. -/
structure BuildState.SameButReads (s t : BuildState) : Prop where
  disk : s.disk = t.disk
  console : s.console = t.console
  log : s.log.filter (!·.isRead) = t.log.filter (!·.isRead)

namespace Context

/-- Header files that are asked for again are as they were when they were read. -/
def Unchanged (ctx : Context) (asks : List Ask) : Prop :=
  asks.Pairwise fun a b => a.loads b.path = true → b.path ≠ Job.noHeader →
    (ctx.storage.read b.path b.disk).mapError .failed = a.text

variable {ctx : Context} {asks : List Ask} {a : Ask} {s t : BuildState} {p : Path}

theorem run_readHeader (ctx : Context) (p : Path) (s : BuildState) :
    (ctx.readHeader p).run.run s = if p = Job.noHeader then (.ok "", s)
      else ((ctx.storage.read p s.disk).mapError .failed, { s with log := s.log ++ [.read p] }) := by
  rw [readHeader]
  split
  case isTrue => rfl
  case isFalse => simp only [Context.read, Build.run_bind, Build.run_note, Build.run_query]

/-- The second state comes of a session without a shelf. On the shelf of the first lies only what has been
read. -/
structure Alongside (asks : List Ask) (s t : BuildState) : Prop extends s.SameButReads t where
  backed : ∀ {p text}, s.shelf.get? p = some text → ∃ a ∈ asks, a.loads p = true ∧ a.text = .ok text

namespace Alongside

variable {u : BuildState}

theorem more (h : Alongside asks s t) (a : Ask) : Alongside (asks ++ [a]) s t where
  toSameButReads := h.toSameButReads
  backed found := by
    obtain ⟨b, hb, hl⟩ := h.backed found
    exact ⟨b, List.mem_append_left _ hb, hl⟩

theorem grow (h : Alongside asks s t) (d : Disk) (c : List Console.Message) (calls : List Event) :
    Alongside asks (s.grow d c calls) (t.grow d c calls) where
  disk := rfl
  console := rfl
  log := by
    rw [BuildState.grow, BuildState.grow, List.filter_append, List.filter_append, h.log]
  backed := h.backed

theorem readLeft (h : Alongside asks s t) (p : Path) :
    Alongside asks { s with log := s.log ++ [.read p] } t where
  disk := h.disk
  console := h.console
  log := by
    rw [List.filter_append, ← h.log]
    exact List.append_nil _
  backed := h.backed

theorem readRight (h : Alongside asks s t) (p : Path) :
    Alongside asks s { t with log := t.log ++ [.read p] } where
  disk := h.disk
  console := h.console
  log := by
    rw [List.filter_append, h.log]
    exact (List.append_nil _).symm
  backed := h.backed

theorem put (h : Alongside asks s t) {text : String} {a : Ask} (ha : ∀ q, p.components = q.components →
    a.loads q = true) (ht : a.text = .ok text) :
    Alongside (asks ++ [a]) { s with shelf := s.shelf.put p text } t where
  disk := h.disk
  console := h.console
  log := h.log
  backed {q text'} found := by
    rw [Shelf.get?_put] at found
    split at found
    case isTrue hpq =>
      cases found
      exact ⟨a, List.mem_append_right _ List.mem_cons_self, ha q hpq, ht⟩
    case isFalse => exact (h.more a).backed found

/-- Both loaders give the same text if the file is as it was when it was read. -/
theorem load (h : Alongside asks s t) {a : Ask} (hpath : a.path = p)
    (hsame : ∀ b ∈ asks, b.loads p = true → p ≠ Job.noHeader →
      (ctx.storage.read p s.disk).mapError .failed = b.text)
    (ha : p ≠ Job.noHeader → s.shelf.get? p = Option.none → ∀ text, ctx.storage.read p s.disk = .ok text →
      a.calls ≠ [] ∧ a.text = .ok text) :
    ∃ r u v, (ctx.header p).run.run s = (r, u) ∧ (ctx.readHeader p).run.run t = (r, v) ∧
      Alongside (asks ++ [a]) u v := by
  have hdisk : ctx.storage.read p t.disk = ctx.storage.read p s.disk := by rw [h.disk]
  rw [run_header, run_readHeader, hdisk]
  by_cases hp : p = Job.noHeader
  · rw [if_pos hp, if_pos hp]
    exact ⟨_, _, _, rfl, rfl, h.more a⟩
  · rw [if_neg hp, if_neg hp]
    cases found : s.shelf.get? p with
    | some text =>
      obtain ⟨b, hb, hl, ht⟩ := h.backed found
      rw [hsame b hb hl hp, ht]
      exact ⟨_, _, _, rfl, rfl, (h.more a).readRight p⟩
    | none =>
      cases hr : ctx.storage.read p s.disk with
      | error f => exact ⟨_, _, _, rfl, rfl, ((h.more a).readLeft p).readRight p⟩
      | ok text =>
        obtain ⟨hcalls, ht⟩ := ha hp found text hr
        have hloads : ∀ q, p.components = q.components → a.loads q = true := fun q hq =>
          Ask.loads_iff.2 ⟨hpath ▸ hq, hcalls, text, ht⟩
        exact ⟨_, _, _, rfl, rfl, ((h.put hloads ht).readLeft p).readRight p⟩

end Alongside

theorem unchanged_left {new : List Ask} (h : ctx.Unchanged (asks ++ new)) : ctx.Unchanged asks :=
  (List.pairwise_append.1 h).1

theorem unchanged_last (h : ctx.Unchanged (asks ++ [a])) : ∀ b ∈ asks, b.loads a.path = true →
    a.path ≠ Job.noHeader → (ctx.storage.read a.path a.disk).mapError .failed = b.text :=
  fun b hb => (List.pairwise_append.1 h).2.2 b hb a List.mem_cons_self

theorem ask_header_of_ok (hp : p ≠ Job.noHeader) (found : s.shelf.get? p = Option.none) (text : String)
    (hr : ctx.storage.read p s.disk = .ok text) :
    (Loader.ask ctx.header p s).calls ≠ [] ∧ (Loader.ask ctx.header p s).text = .ok text := by
  have hrun : (ctx.header p).run.run s =
      (.ok text, { s with shelf := s.shelf.put p text, log := s.log ++ [.read p] }) := by
    rw [run_header, if_neg hp, found]
    simp only [hr]
  rw [Loader.ask, hrun]
  simp only [List.drop_left]
  exact ⟨List.cons_ne_nil _ _, trivial⟩

theorem ask_readHeader_of_ok (hp : p ≠ Job.noHeader) {text : String}
    (hr : ctx.storage.read p s.disk = .ok text) :
    (Loader.ask ctx.readHeader p s).calls ≠ [] ∧ (Loader.ask ctx.readHeader p s).text = .ok text := by
  have hrun : (ctx.readHeader p).run.run s = (.ok text, { s with log := s.log ++ [.read p] }) := by
    rw [run_readHeader, if_neg hp, hr, Build.mapError_ok]
  rw [Loader.ask, hrun]
  simp only [List.drop_left]
  exact ⟨List.cons_ne_nil _ _, trivial⟩

theorem parallels_readHeader (ctx : Context) :
    Loader.Parallels ctx.header ctx.readHeader ctx.Unchanged Alongside where
  fine_left := unchanged_left
  disk h := h.disk
  console h := h.console
  grow h := h.grow
  load {asks s s' p r t} h hf hrun := by
    have hsame := unchanged_last hf
    rw [Loader.path_ask, Loader.disk_ask] at hsame
    obtain ⟨r', u, v, hu, hv, h'⟩ := h.load (Loader.path_ask ctx.header p s) hsame ask_header_of_ok
    rw [hrun] at hu
    cases hu
    exact ⟨v, hv, h'⟩

theorem parallels_header (ctx : Context) :
    Loader.Parallels ctx.readHeader ctx.header ctx.Unchanged fun asks s t => Alongside asks t s where
  fine_left := unchanged_left
  disk h := h.disk.symm
  console h := h.console.symm
  grow h := h.grow
  load {asks s s' p r t} h hf hrun := by
    have hread : p ≠ Job.noHeader → s'.shelf.get? p = Option.none →
        ∀ text, ctx.storage.read p s'.disk = .ok text →
          (Loader.ask ctx.readHeader p s).calls ≠ [] ∧ (Loader.ask ctx.readHeader p s).text = .ok text := by
      intro hp _ text hr
      rw [h.disk] at hr
      exact ask_readHeader_of_ok hp hr
    have hsame := unchanged_last hf
    rw [Loader.path_ask, Loader.disk_ask, ← h.disk] at hsame
    obtain ⟨r', u, v, hu, hv, h'⟩ := h.load (Loader.path_ask ctx.readHeader p s) hsame hread
    rw [hrun] at hv
    cases hv
    exact ⟨u, hu, h'⟩

/-- What the program does in a session is among what the session can come to. Whatever it comes to, each
header file is read at most once and its text is kept. Whatever can come of a session can come of it
without a shelf, and the other way round, as long as no header file that has been read has changed when it
is asked for again. -/
theorem sessions_share_headers (ctx : Context) (deeds : List Deed) (d : Disk) :
    (∃ asks, ctx.Session ctx.header (.fresh d) deeds asks (ctx.carryOut deeds (.fresh d)).1
      (ctx.carryOut deeds (.fresh d)).2) ∧
    (∀ asks upshots t, ctx.Session ctx.header (.fresh d) deeds asks upshots t →
      ctx.SharesHeaders asks ∧ (ctx.Unchanged asks → ∃ asks' t',
        ctx.Session ctx.readHeader (.fresh d) deeds asks' upshots t' ∧ t.SameButReads t' ∧
          asks'.map Ask.heard = asks.map Ask.heard)) ∧
    ∀ asks upshots t, ctx.Session ctx.readHeader (.fresh d) deeds asks upshots t → ctx.Unchanged asks →
      ∃ asks' t', ctx.Session ctx.header (.fresh d) deeds asks' upshots t' ∧ t'.SameButReads t ∧
        asks'.map Ask.heard = asks.map Ask.heard := by
  have hstart : Alongside [] (.fresh d) (.fresh d) := {
    disk := rfl
    console := rfl
    log := rfl
    backed := Shelf.Keeps.empty.backed }
  refine ⟨ctx.session_carryOut deeds _, fun asks upshots t h => ⟨h.shares, fun hf => ?_⟩,
    fun asks upshots t h hf => ?_⟩
  · obtain ⟨asks', t', hsession, hend, heard⟩ := ctx.parallels_readHeader.session h hstart hf
    exact ⟨asks', t', hsession, hend.toSameButReads, heard⟩
  · obtain ⟨asks', t', hsession, hend, heard⟩ := ctx.parallels_header.session h hstart hf
    exact ⟨asks', t', hsession, hend.toSameButReads, heard⟩

/-! ## A small project -/

/-- A job of the small project that takes the default header. -/
def headedJob : Job where
  root := ⟨"/src"⟩
  entry := "m.js"
  format := .umd
  name := none
  excludeBase := false
  target := ⟨"/build/m.js"⟩
  header := .auto
  skip := some 0
  comments := .keep

/-- The job runs twice, and something happens to the tree in between. -/
def twiceWith (change : Disk → Disk) : List Deed :=
  [.order (.transpile headedJob), .edit change, .order (.transpile headedJob)]

/-- The small project with a default header. -/
def headed : Disk :=
  Disk.small.set ["d"] (.file (Text.encode "h") false)

theorem performs_transpile (ctx : Context) (load : Loader) (j : Job) (s : BuildState) :
    ∃ r t, (ctx.openWith load j >>= ctx.closeCall).run.run s = (r, t) ∧
      ctx.Performs load ((Order.transpile j).run ctx) s [load.ask (j.headerPath ctx.settings) s]
        (r.map .file, t) := by
  have hopen : ctx.Performs load (ctx.openCall j) s _ _ := .openCall
  rcases hrun : (ctx.openWith load j).run.run s with ⟨r, t⟩
  rw [hrun] at hopen
  cases r with
  | error e => exact ⟨_, _, Build.run_bind_of_error hrun, .stop (.stop hopen)⟩
  | ok c =>
    have hclose : ctx.Performs load (ctx.closeCall c) t [] _ := .aloof (ctx.aloof_closeCall c)
    rcases hrun' : (ctx.closeCall c).run.run t with ⟨r, u⟩
    rw [hrun'] at hclose
    cases r with
    | error e => exact ⟨_, _, (Build.run_bind_of_ok hrun).trans hrun', .stop (.bind hopen hclose)⟩
    | ok target =>
      exact ⟨_, _, (Build.run_bind_of_ok hrun).trans hrun',
        .bind (.bind hopen hclose) (.aloof (Build.aloof_pure _))⟩

/-- What the two runs ask of the loader. -/
def askedTwice (ctx : Context) (load : Loader) (change : Disk → Disk) (s : BuildState) : List Ask :=
  let t := ((ctx.openWith load headedJob >>= ctx.closeCall).run.run s).2
  let p := headedJob.headerPath ctx.settings
  [load.ask p s, load.ask p { t with disk := change t.disk }]

theorem session_twiceWith (ctx : Context) (load : Loader) (change : Disk → Disk) (s : BuildState) :
    ∃ upshots u, ctx.Session load s (twiceWith change) (ctx.askedTwice load change s) upshots u := by
  obtain ⟨r, t, hrun, hfirst⟩ := ctx.performs_transpile load headedJob s
  obtain ⟨r', u, -, hsecond⟩ := ctx.performs_transpile load headedJob { t with disk := change t.disk }
  rw [askedTwice, hrun]
  exact ⟨_, u, .order hfirst (.edit (.order hsecond .done))⟩

theorem unchanged_twice (text : String) {a b : Ask} (ha : a.text.toOption = some text)
    (hb : (ctx.storage.read b.path b.disk).toOption = some text) : ctx.Unchanged [a, b] := by
  refine List.pairwise_pair.2 fun _ _ => ?_
  rw [Build.eq_ok_of_toOption ha, Build.eq_ok_of_toOption hb, Build.mapError_ok]

set_option maxRecDepth 20000 in
/-- The second job gets the text that was read for the first one, although the file is another one by
then. When it is the same, it makes no difference whether it is read again. -/
theorem sessions_share_headers_small :
    let ctx := small .small "b"
    (∃ asks upshots t, ctx.Session ctx.header (.fresh headed)
      (twiceWith (·.set ["d"] (.file (Text.encode "i") false))) asks upshots t ∧
      asks.map (·.text.toOption) = [some "h", some "h"] ∧ ctx.SharesHeaders asks) ∧
    (∃ asks upshots t, ctx.Session ctx.header (.fresh headed) (twiceWith id) asks upshots t ∧
      ctx.Unchanged asks ∧ ∃ asks' t',
        ctx.Session ctx.readHeader (.fresh headed) (twiceWith id) asks' upshots t' ∧ t.SameButReads t' ∧
          asks'.map Ask.heard = asks.map Ask.heard) ∧
    ∃ asks upshots t, ctx.Session ctx.readHeader (.fresh headed) (twiceWith id) asks upshots t ∧
      ctx.Unchanged asks ∧ ∃ asks' t',
        ctx.Session ctx.header (.fresh headed) (twiceWith id) asks' upshots t' ∧ t'.SameButReads t ∧
          asks'.map Ask.heard = asks.map Ask.heard := by
  intro ctx
  obtain ⟨-, hchanged, -⟩ := ctx.sessions_share_headers
    (twiceWith (·.set ["d"] (.file (Text.encode "i") false))) headed
  obtain ⟨-, hcached, hread⟩ := ctx.sessions_share_headers (twiceWith id) headed
  refine ⟨?_, ?_, ?_⟩
  · obtain ⟨upshots, t, h⟩ := ctx.session_twiceWith ctx.header
      (·.set ["d"] (.file (Text.encode "i") false)) (.fresh headed)
    exact ⟨_, upshots, t, h, by decide +kernel, (hchanged _ _ _ h).1⟩
  · obtain ⟨upshots, t, h⟩ := ctx.session_twiceWith ctx.header id (.fresh headed)
    have hu : ctx.Unchanged (ctx.askedTwice ctx.header id (.fresh headed)) :=
      unchanged_twice "h" (by decide +kernel) (by decide +kernel)
    exact ⟨_, upshots, t, h, hu, (hcached _ _ _ h).2 hu⟩
  · obtain ⟨upshots, t, h⟩ := ctx.session_twiceWith ctx.readHeader id (.fresh headed)
    have hu : ctx.Unchanged (ctx.askedTwice ctx.readHeader id (.fresh headed)) :=
      unchanged_twice "h" (by decide +kernel) (by decide +kernel)
    exact ⟨_, upshots, t, h, hu, hread _ _ _ h hu⟩

end Context

end LocaleForge
