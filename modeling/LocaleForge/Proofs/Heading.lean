import LocaleForge.Proofs.Joining
import LocaleForge.Proofs.Walk

/-!
Where a path heads: the location that it leads to once the missing directories on it are made.
-/

namespace LocaleForge

namespace Disk

/-! ## Headings -/

/-- Follows the pieces of a path and the links on it; what is missing is passed like a directory. -/
def headWith (d : Disk) (onLink : Location → List String → Option Location) :
    Location → List String → Option Location
  | dir, [] => some dir
  | dir, p :: ps =>
    if Path.isIdle p then headWith d onLink dir ps
    else if p = ".." then headWith d onLink dir.dropLast ps
    else
      match d.get? (dir ++ [p]) with
      | some (.link target) =>
        onLink (if (Path.mk target).isAbsolute then [] else dir) (Text.cut '/' target ++ ps)
      | _ => headWith d onLink (dir ++ [p]) ps

def head (d : Disk) (links : Nat) : Location → List String → Option Location :=
  match links with
  | 0 => headWith d fun _ _ => none
  | n + 1 => headWith d (head d n)

/-- Where the path leads once the missing directories on it are made. -/
@[irreducible]
def heading? (d : Disk) (p : Path) : Option Location :=
  d.head maxLinks (d.origin p) (Text.cut '/' p.text)

variable {d X : Disk} {onLink : Location → List String → Option Location} {dir loc : Location}
  {p : String} {ps rs : List String}

theorem headWith_idle (h : Path.isIdle p = true) :
    headWith d onLink dir (p :: ps) = headWith d onLink dir ps := by
  rw [headWith, if_pos h]

theorem headWith_idles (h : ps.all String.isEmpty = true) : headWith d onLink dir ps = some dir := by
  induction ps with
  | nil => rfl
  | cons p ps ih =>
    simp only [List.all_cons, Bool.and_eq_true] at h
    rw [headWith_idle (by simp [Path.isIdle, h.1])]
    exact ih h.2

theorem headWith_up : headWith d onLink dir (".." :: ps) = headWith d onLink dir.dropLast ps := by
  rw [headWith, not_isIdle_up]
  rfl

theorem headWith_name (hidle : Path.isIdle p = false) (hup : p ≠ "..") :
    headWith d onLink dir (p :: ps) =
      match d.get? (dir ++ [p]) with
      | some (.link target) =>
        onLink (if (Path.mk target).isAbsolute then [] else dir) (Text.cut '/' target ++ ps)
      | _ => headWith d onLink (dir ++ [p]) ps := by
  rw [headWith, hidle, if_neg Bool.false_ne_true, if_neg hup]

theorem headWith_down (hidle : Path.isIdle p = false) (hup : p ≠ "..")
    (h : ∀ target, d.get? (dir ++ [p]) ≠ some (.link target)) :
    headWith d onLink dir (p :: ps) = headWith d onLink (dir ++ [p]) ps := by
  rw [headWith_name hidle hup]
  split
  case h_1 target hg => exact absurd hg (h target)
  case h_2 => rfl

theorem head_nil {n : Nat} : d.head n dir [] = some dir := by
  cases n <;> rfl

theorem head_idle {n : Nat} (h : Path.isIdle p = true) : d.head n dir (p :: ps) = d.head n dir ps := by
  cases n <;> exact headWith_idle h

theorem head_idles {n : Nat} (h : ps.all String.isEmpty = true) : d.head n dir ps = some dir := by
  cases n <;> exact headWith_idles h

theorem head_up {n : Nat} : d.head n dir (".." :: ps) = d.head n dir.dropLast ps := by
  cases n <;> exact headWith_up

theorem head_down {n : Nat} (hp : Path.Proper p)
    (h : ∀ target, d.get? (dir ++ [p]) ≠ some (.link target)) :
    d.head n dir (p :: ps) = d.head n (dir ++ [p]) ps := by
  cases n <;> exact headWith_down hp.notIdle hp.notUp h

theorem head_link {n : Nat} (hp : Path.Proper p) {target : String}
    (h : d.get? (dir ++ [p]) = some (.link target)) :
    d.head (n + 1) dir (p :: ps) =
      d.head n (if (Path.mk target).isAbsolute then [] else dir) (Text.cut '/' target ++ ps) := by
  rw [head, headWith_name hp.notIdle hp.notUp, h]

/-- Where no link lies on its way, a path that goes down only heads straight down. -/
theorem headWith_straight (hway : ∀ l, dir <+: l → l ≠ dir → l <+: dir ++ Path.names rs →
      ∀ target, d.get? l ≠ some (.link target))
    (hup : ".." ∉ rs) : headWith d onLink dir rs = some (dir ++ Path.names rs) := by
  induction rs generalizing dir with
  | nil => simp [headWith]
  | cons p rs ih =>
    simp only [List.mem_cons, not_or] at hup
    cases hidle : Path.isIdle p with
    | true =>
      rw [Path.names_idle hidle] at hway
      rw [headWith_idle hidle, Path.names_idle hidle]
      exact ih hway hup.2
    | false =>
      have hnames : dir ++ Path.names (p :: rs) = dir ++ [p] ++ Path.names rs := by
        rw [Path.names_cons hidle, List.append_assoc, List.singleton_append]
      rw [hnames] at hway ⊢
      rw [headWith_down hidle (Ne.symm hup.1)
        (hway (dir ++ [p]) (List.prefix_append dir [p]) (by simp) (List.prefix_append _ _)), ih ?_ hup.2]
      intro l hl hne
      refine hway l ((List.prefix_append dir [p]).trans hl) ?_
      rintro rfl
      have := hl.length_le
      rw [List.length_append, List.length_singleton] at this
      omega

/-- Below a location without links, a path that goes down only heads straight down. -/
theorem headWith_plain (hfree : ∀ l, dir <+: l → l ≠ dir → ∀ target, d.get? l ≠ some (.link target))
    (hup : ".." ∉ rs) : headWith d onLink dir rs = some (dir ++ Path.names rs) :=
  headWith_straight (fun l hl hne _ => hfree l hl hne) hup

theorem head_straight {n : Nat} (hway : ∀ l, dir <+: l → l ≠ dir → l <+: dir ++ Path.names rs →
      ∀ target, d.get? l ≠ some (.link target))
    (hup : ".." ∉ rs) : d.head n dir rs = some (dir ++ Path.names rs) := by
  cases n <;> exact headWith_straight hway hup

theorem headWith_trans {loc' : Location}
    (hlink : ∀ dir ps, onLink dir ps = some loc → onLink dir (ps ++ rs) = some loc')
    (hrest : headWith d onLink loc rs = some loc') (h : headWith d onLink dir ps = some loc) :
    headWith d onLink dir (ps ++ rs) = some loc' := by
  induction ps generalizing dir with
  | nil =>
    cases h
    exact hrest
  | cons p ps ih =>
    rw [List.cons_append]
    cases hidle : Path.isIdle p with
    | true =>
      rw [headWith_idle hidle] at h ⊢
      exact ih h
    | false =>
      by_cases hp : p = ".."
      · subst hp
        rw [headWith_up] at h ⊢
        exact ih h
      · rw [headWith_name hidle hp] at h ⊢
        split at h
        case h_1 target hg =>
          rw [← List.append_assoc]
          exact hlink _ _ h
        case h_2 => exact ih h

/-- Where the pieces behind need no link, they are followed from where those in front head. -/
theorem head_trans {n : Nat} {loc' : Location} (hrest : ∀ m, d.head m loc rs = some loc')
    (h : d.head n dir ps = some loc) : d.head n dir (ps ++ rs) = some loc' := by
  induction n generalizing dir ps with
  | zero => exact headWith_trans (fun _ _ h => by cases h) (hrest 0) h
  | succ n ih => exact headWith_trans (fun _ _ h => ih h) (hrest (n + 1)) h

theorem head_append {n : Nat}
    (hfree : ∀ l, loc <+: l → l ≠ loc → ∀ target, d.get? l ≠ some (.link target))
    (hup : ".." ∉ rs) (h : d.head n dir ps = some loc) :
    d.head n dir (ps ++ rs) = some (loc ++ Path.names rs) :=
  head_trans (fun _ => head_straight (fun l hl hne _ => hfree l hl hne) hup) h

/-- Pieces that stand for no step do not change where a path heads. -/
theorem headWith_names
    (hlink : ∀ dir ps qs, Path.names ps = Path.names qs → onLink dir ps = onLink dir qs) :
    headWith d onLink dir ps = headWith d onLink dir (Path.names ps) := by
  induction ps generalizing dir with
  | nil => rfl
  | cons p ps ih =>
    cases hidle : Path.isIdle p with
    | true => rw [headWith_idle hidle, Path.names_idle hidle, ih]
    | false =>
      rw [Path.names_cons hidle]
      by_cases hp : p = ".."
      · rw [hp, headWith_up, headWith_up, ih]
      · rw [headWith_name hidle hp, headWith_name hidle hp]
        split
        · refine hlink _ _ _ ?_
          rw [Path.names_append, Path.names_append, Path.names_names]
        · exact ih

theorem head_names {n : Nat} {qs : List String} (h : Path.names ps = Path.names qs) :
    d.head n dir ps = d.head n dir qs := by
  induction n generalizing dir ps qs with
  | zero =>
    have step : ∀ ps, headWith d (fun _ _ => none) dir ps = _ :=
      fun ps => headWith_names fun _ _ _ _ => rfl
    rw [head, step ps, h, ← step qs]
  | succ n ih =>
    have step : ∀ ps, headWith d (head d n) dir ps = _ :=
      fun ps => headWith_names fun _ _ _ h => ih h
    rw [head, step ps, h, ← step qs]

theorem heading?_of_names {p q : Path} (ha : p.isAbsolute = q.isAbsolute)
    (hn : Path.names (Text.cut '/' p.text) = Path.names (Text.cut '/' q.text)) :
    d.heading? p = d.heading? q := by
  rw [heading?, heading?, origin, origin, ha]
  exact head_names hn

/-- Paths with the same steps head to the same location. -/
theorem heading?_congr {p q : Path} (h : p.components = q.components) :
    d.heading? p = d.heading? q :=
  heading?_of_names (Path.names_eq_of_components h).1 (Path.names_eq_of_components h).2

/-- A joined path begins where the first path begins. -/
theorem origin_join (d : Disk) (q : Path) {rel : String} (hrel : (Path.mk rel).isAbsolute = false) :
    d.origin (q.join rel) = d.origin q := by
  rw [origin, origin, q.isAbsolute_join hrel]

/-- Where no link is on the way down from a path's heading, what is joined to the path heads straight down. -/
theorem heading?_join_straight {q : Path} (h : d.heading? q = some loc) {rel : String}
    (hrel : Path.Plain rel) (hway : ∀ l, loc <+: l → l ≠ loc →
      l <+: loc ++ Path.names (Text.cut '/' rel) → ∀ target, d.get? l ≠ some (.link target)) :
    d.heading? (q.join rel) = some (loc ++ Path.names (Text.cut '/' rel)) := by
  obtain ⟨ps, hq, hj⟩ := q.cut_join hrel.relative
  rw [heading?, head_names (Path.names_front hq)] at h
  rw [heading?, d.origin_join q hrel.relative, hj]
  exact head_trans (fun _ => head_straight hway hrel.noUp) h

/-- Where no link is below a path's heading, what is joined to the path heads straight down. -/
theorem heading?_join {q : Path} (h : d.heading? q = some loc)
    (hfree : ∀ l, loc <+: l → l ≠ loc → ∀ target, d.get? l ≠ some (.link target)) {rel : String}
    (hrel : Path.Plain rel) :
    d.heading? (q.join rel) = some (loc ++ Path.names (Text.cut '/' rel)) :=
  heading?_join_straight h hrel fun l hl hne _ => hfree l hl hne

end Disk

end LocaleForge
