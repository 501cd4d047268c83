import LocaleForge.Proofs.Parallels
import LocaleForge.Proofs.Setting

/-!
Header texts are shared by all jobs of a session. Each header file is read with success at most once, and
every job gets the text of that read.
-/

namespace LocaleForge

/-- The file at the path is read for this, with success. Paths with the same steps are the same. -/
def Ask.loads (a : Ask) (p : Path) : Bool :=
  decide (a.path.components = p.components) && !a.calls.isEmpty && a.text.isOk

namespace Context

/-- Header files are read at most once, and their texts are kept. -/
structure SharesHeaders (ctx : Context) (asks : List Ask) : Prop where
  once : ∀ p, asks.countP (·.loads p) ≤ 1
  same : asks.Pairwise fun a b => a.loads b.path = true → b.path ≠ Job.noHeader →
    b.calls = [] ∧ b.text = a.text
  /-- As long as no read has been successful, the file is read again. -/
  again : ∀ before a after, asks = before ++ a :: after → a.path ≠ Job.noHeader →
    (∀ b ∈ before, b.loads a.path = false) →
    a.calls = [.read a.path] ∧ a.text = (ctx.storage.read a.path a.disk).mapError .failed
  none : ∀ a ∈ asks, a.path = Job.noHeader → a.calls = [] ∧ a.text = .ok ""

end Context

/-- The shelf has the texts that have been read, and no others. -/
structure Shelf.Keeps (shelf : Shelf) (asks : List Ask) : Prop where
  backed : ∀ {p text}, shelf.get? p = some text → ∃ a ∈ asks, a.loads p = true ∧ a.text = .ok text
  stored : ∀ {a p}, a ∈ asks → a.loads p = true → ∃ text, shelf.get? p = some text ∧ a.text = .ok text

namespace Shelf

variable {shelf : Shelf} {asks : List Ask} {p q : Path} {text : String}

theorem get?_congr (h : p.components = q.components) : shelf.get? p = shelf.get? q := by
  rw [get?, get?, h]

theorem get?_put (shelf : Shelf) (p q : Path) (text : String) :
    (shelf.put p text).get? q = if p.components = q.components then some text else shelf.get? q := by
  split
  case isTrue h => exact shelf.get?_put_self h text
  case isFalse h => exact shelf.get?_put_of_ne h text

end Shelf

theorem Ask.loads_iff {a : Ask} {p : Path} :
    a.loads p = true ↔ a.path.components = p.components ∧ a.calls ≠ [] ∧ ∃ text, a.text = .ok text := by
  rw [loads, Bool.and_eq_true, Bool.and_eq_true, decide_eq_true_iff, and_assoc]
  refine and_congr_right fun _ => and_congr ?_ ?_
  · rw [Bool.not_eq_true', List.isEmpty_eq_false_iff]
  · cases a.text with
    | ok text => exact ⟨fun _ => ⟨text, rfl⟩, fun _ => rfl⟩
    | error e =>
      refine ⟨fun h => ?_, fun h => ?_⟩
      · cases h
      · obtain ⟨_, h⟩ := h
        cases h

namespace Context

open Build

variable {ctx : Context} {asks : List Ask} {s t : BuildState} {p : Path}

/-! ## The shelf -/

/-- The ways to get a header from the shelf. -/
inductive Serves (ctx : Context) (s : BuildState) (p : Path) : Ask → BuildState → Prop where
  | none (hp : p = Job.noHeader) : Serves ctx s p ⟨p, s.disk, [], .ok ""⟩ s
  | known {text : String} (hp : p ≠ Job.noHeader) (found : s.shelf.get? p = some text) :
    Serves ctx s p ⟨p, s.disk, [], .ok text⟩ s
  | loaded {text : String} (hp : p ≠ Job.noHeader) (found : s.shelf.get? p = Option.none)
    (read : ctx.storage.read p s.disk = .ok text) :
    Serves ctx s p ⟨p, s.disk, [.read p], .ok text⟩
      { s with shelf := s.shelf.put p text, log := s.log ++ [.read p] }
  | failed {f : Failure} (hp : p ≠ Job.noHeader) (found : s.shelf.get? p = Option.none)
    (read : ctx.storage.read p s.disk = .error f) :
    Serves ctx s p ⟨p, s.disk, [.read p], .error (.failed f)⟩ { s with log := s.log ++ [.read p] }

theorem serves (ctx : Context) (s : BuildState) (p : Path) :
    ctx.Serves s p (Loader.ask ctx.header p s) ((ctx.header p).run.run s).2 := by
  rw [Loader.ask]
  simp only [run_header]
  split
  case isTrue hp =>
    simp only [List.drop_length]
    exact .none hp
  case isFalse hp =>
    split
    case h_1 text found =>
      simp only [List.drop_length]
      exact .known hp found
    case h_2 found =>
      split
      case h_1 text read =>
        simp only [List.drop_left]
        exact .loaded hp found read
      case h_2 f read =>
        simp only [List.drop_left]
        exact .failed hp found read

end Context

theorem Ask.loads_of_silent {a : Ask} (h : a.calls = []) (p : Path) : a.loads p = false := by
  refine Bool.eq_false_iff.2 fun hl => ?_
  exact (loads_iff.1 hl).2.1 h

theorem Ask.loads_of_error {a : Ask} {e : Stop} (h : a.text = .error e) (p : Path) :
    a.loads p = false := by
  refine Bool.eq_false_iff.2 fun hl => ?_
  obtain ⟨-, -, text, ht⟩ := loads_iff.1 hl
  cases h.symm.trans ht

namespace Shelf.Keeps

variable {shelf : Shelf} {asks : List Ask} {a : Ask} {p : Path} {text : String}

theorem empty : Keeps {} [] where
  backed h := by cases h
  stored h := absurd h List.not_mem_nil

theorem unread (h : shelf.Keeps asks) (ha : ∀ q, a.loads q = false) : shelf.Keeps (asks ++ [a]) where
  backed hq := by
    obtain ⟨b, hb, hl⟩ := h.backed hq
    exact ⟨b, List.mem_append_left _ hb, hl⟩
  stored {b q} hb hl := by
    rcases List.mem_append.1 hb with hb | hb
    · exact h.stored hb hl
    · obtain rfl := List.mem_singleton.1 hb
      exact absurd hl (Bool.eq_false_iff.1 (ha q))

theorem put (h : shelf.Keeps asks) (found : shelf.get? p = none)
    (ha : ∀ q, a.loads q = true ↔ p.components = q.components) (ht : a.text = .ok text) :
    (shelf.put p text).Keeps (asks ++ [a]) where
  backed {q text'} hq := by
    rw [get?_put] at hq
    split at hq
    case isTrue hpq =>
      cases hq
      exact ⟨a, List.mem_append_right _ List.mem_cons_self, (ha q).2 hpq, ht⟩
    case isFalse =>
      obtain ⟨b, hb, hl⟩ := h.backed hq
      exact ⟨b, List.mem_append_left _ hb, hl⟩
  stored {b q} hb hl := by
    rw [get?_put]
    rcases List.mem_append.1 hb with hb | hb
    · obtain ⟨text', hq, ht'⟩ := h.stored hb hl
      rw [if_neg, hq]
      · exact ⟨text', rfl, ht'⟩
      · intro hpq
        rw [get?_congr hpq, hq] at found
        cases found
    · obtain rfl := List.mem_singleton.1 hb
      rw [if_pos ((ha q).1 hl)]
      exact ⟨text, rfl, ht⟩

/-- What is not on the shelf has not been read. -/
theorem not_loads (h : shelf.Keeps asks) (found : shelf.get? p = none) : ∀ b ∈ asks, ¬ b.loads p = true := by
  intro b hb hl
  obtain ⟨text, hp, -⟩ := h.stored hb hl
  rw [found] at hp
  cases hp

end Shelf.Keeps

namespace Context

variable {ctx : Context} {asks : List Ask} {a : Ask} {s t : BuildState} {p : Path}

theorem Serves.path (h : ctx.Serves s p a t) : a.path = p := by
  cases h <;> rfl

theorem Serves.keeps (h : ctx.Serves s p a t) (hk : s.shelf.Keeps asks) : t.shelf.Keeps (asks ++ [a]) := by
  cases h with
  | none => exact hk.unread (Ask.loads_of_silent rfl)
  | known => exact hk.unread (Ask.loads_of_silent rfl)
  | failed => exact hk.unread (Ask.loads_of_error rfl)
  | loaded hp found read =>
    refine hk.put found (fun q => ?_) rfl
    rw [Ask.loads_iff]
    exact ⟨fun h => h.1, fun h => ⟨h, List.cons_ne_nil _ _, _, rfl⟩⟩

/-- What is read with success was not on the shelf. -/
theorem Serves.fresh (h : ctx.Serves s p a t) {q : Path} (hl : a.loads q = true) :
    s.shelf.get? q = Option.none := by
  cases h with
  | none => rw [Ask.loads_of_silent rfl] at hl; cases hl
  | known => rw [Ask.loads_of_silent rfl] at hl; cases hl
  | failed => rw [Ask.loads_of_error rfl] at hl; cases hl
  | loaded hp found read => exact (Shelf.get?_congr (Ask.loads_iff.1 hl).1).symm.trans found

/-- A header that has been read is not read again. -/
theorem Serves.known_of_loads (h : ctx.Serves s p a t) (hk : s.shelf.Keeps asks) {b : Ask}
    (hb : b ∈ asks) (hl : b.loads p = true) (hp : p ≠ Job.noHeader) : a.calls = [] ∧ a.text = b.text := by
  obtain ⟨text, hfound, ht⟩ := hk.stored hb hl
  cases h with
  | none hn => exact absurd hn hp
  | known hn found =>
    rw [hfound] at found
    cases found
    exact ⟨rfl, ht.symm⟩
  | loaded hn found =>
    rw [hfound] at found
    cases found
  | failed hn found =>
    rw [hfound] at found
    cases found

/-- A header that has not been read is read. -/
theorem Serves.read_of_not_loads (h : ctx.Serves s p a t) (hk : s.shelf.Keeps asks)
    (hp : p ≠ Job.noHeader) (hl : ∀ b ∈ asks, b.loads p = false) :
    a.calls = [.read p] ∧ a.text = (ctx.storage.read p a.disk).mapError .failed := by
  cases h with
  | none hn => exact absurd hn hp
  | known hn found =>
    obtain ⟨b, hb, hl', -⟩ := hk.backed found
    rw [hl b hb] at hl'
    cases hl'
  | loaded hn found read =>
    rw [read]
    exact ⟨rfl, rfl⟩
  | failed hn found read =>
    rw [read]
    exact ⟨rfl, rfl⟩

theorem SharesHeaders.nil : ctx.SharesHeaders [] where
  once _ := Nat.zero_le 1
  same := .nil
  again before a after h := absurd h (by simp)
  none a ha := absurd ha List.not_mem_nil

theorem SharesHeaders.step (hs : ctx.SharesHeaders asks) (h : ctx.Serves s p a t)
    (hk : s.shelf.Keeps asks) : ctx.SharesHeaders (asks ++ [a]) where
  once q := by
    rw [List.countP_append, List.countP_singleton]
    split
    case isTrue hl =>
      have hnone := List.countP_eq_zero.2 (hk.not_loads (h.fresh hl))
      omega
    case isFalse => exact hs.once q
  same := by
    refine List.pairwise_append.2 ⟨hs.same, List.pairwise_singleton _ _, fun b hb a' ha' hl hp => ?_⟩
    obtain rfl := List.mem_singleton.1 ha'
    rw [h.path] at hl hp
    exact h.known_of_loads hk hb hl hp
  again before b after heq hp hl := by
    rcases after.eq_nil_or_concat with rfl | ⟨after, c, rfl⟩
    · obtain ⟨rfl, ha⟩ := List.append_inj' heq rfl
      cases ha
      rw [h.path] at hp hl ⊢
      exact h.read_of_not_loads hk hp hl
    · have hfront : asks = before ++ b :: after := by
        have hconcat : asks ++ [a] = (before ++ b :: after) ++ [c] := by
          rw [heq, List.concat_eq_append, List.append_assoc, List.cons_append]
        exact (List.append_inj' hconcat rfl).1
      exact hs.again before b after hfront hp hl
  none b hb hp := by
    rcases List.mem_append.1 hb with hb | hb
    · exact hs.none b hb hp
    · obtain rfl := List.mem_singleton.1 hb
      cases h with
      | none => exact ⟨rfl, rfl⟩
      | known hn => exact absurd hp hn
      | loaded hn => exact absurd hp hn
      | failed hn => exact absurd hp hn

/-- What has been asked so far is shared, step by step. -/
theorem parallels_self (ctx : Context) : Loader.Parallels ctx.header ctx.header (fun _ => True)
    fun asks s s' => s = s' ∧ s.shelf.Keeps asks ∧ ctx.SharesHeaders asks where
  fine_left _ := trivial
  disk h := congrArg _ h.1
  console h := congrArg _ h.1
  grow h d c calls := ⟨congrArg (·.grow d c calls) h.1, h.2⟩
  load {asks s s' p r t} h _ hrun := by
    obtain ⟨rfl, hk, hs⟩ := h
    have hserves := ctx.serves s p
    rw [hrun] at hserves
    exact ⟨t, hrun, rfl, hserves.keeps hk, hs.step hserves hk⟩

/-- Every session shares its headers. -/
theorem Session.shares {d : Disk} {deeds : List Deed} {upshots : List Upshot}
    (h : ctx.Session ctx.header (.fresh d) deeds asks upshots t) : ctx.SharesHeaders asks := by
  obtain ⟨-, t', -, ⟨-, -, hs⟩, -⟩ :=
    ctx.parallels_self.session h ⟨rfl, Shelf.Keeps.empty, SharesHeaders.nil⟩ trivial
  exact hs

end Context

end LocaleForge
