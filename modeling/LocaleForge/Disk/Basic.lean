import LocaleForge.Text.Utf8

/-!
A tree of files as a map from locations to entries, with a working directory for relative paths. The
map is kept sorted by location, name by name, so equal trees are equal values. What lies somewhere
lies in a directory. The root is a directory without an entry of its own.
-/

namespace LocaleForge

/-- Where a file lies: the names on the way from the root. -/
abbrev Location := List String

/-- A name that a file can have: one that a path can lead to. -/
def IsName (n : String) : Prop :=
  n ≠ "" ∧ n ≠ "." ∧ n ≠ ".." ∧ '/' ∉ n.toList

instance : DecidablePred IsName := fun n =>
  inferInstanceAs (Decidable (n ≠ "" ∧ n ≠ "." ∧ n ≠ ".." ∧ '/' ∉ n.toList))

/-- What lies at a location. -/
inductive Entry where
  | file (content : ByteArray) (executable : Bool)
  | directory
  | link (target : String)

namespace Entry

instance : DecidableEq Entry := fun a b =>
  match a, b with
  | .file c x, .file d y =>
    decidable_of_decidable_of_iff (p := c.data = d.data ∧ x = y) (by simp [ByteArray.ext_iff])
  | .directory, .directory => .isTrue rfl
  | .link s, .link t => decidable_of_decidable_of_iff (p := s = t) (by simp)
  | .file .., .directory | .file .., .link _ | .directory, .file .. | .directory, .link _
  | .link _, .file .. | .link _, .directory => .isFalse nofun

def isFile : Entry → Bool
  | file .. => true
  | _ => false

end Entry

/-- Sets the entry of one location in a sorted list. -/
def setEntry (loc : Location) (e : Entry) : List (Location × Entry) → List (Location × Entry)
  | [] => [(loc, e)]
  | (k, v) :: rest =>
    if loc < k then (loc, e) :: (k, v) :: rest
    else if loc = k then (loc, e) :: rest
    else (k, v) :: setEntry loc e rest

theorem mem_of_mem_setEntry {loc : Location} {e : Entry} {es : List (Location × Entry)}
    {p : Location × Entry} (h : p ∈ setEntry loc e es) : p = (loc, e) ∨ p ∈ es := by
  induction es with
  | nil => simpa [setEntry] using h
  | cons x rest ih =>
    obtain ⟨k, v⟩ := x
    rw [setEntry] at h
    split at h
    · simpa using h
    · split at h
      · rcases List.mem_cons.1 h with h | h
        · exact .inl h
        · exact .inr (List.mem_cons_of_mem _ h)
      · rcases List.mem_cons.1 h with h | h
        · exact .inr (h ▸ List.mem_cons_self)
        · exact (ih h).imp_right (List.mem_cons_of_mem _)

theorem mem_setEntry_self (loc : Location) (e : Entry) (es : List (Location × Entry)) :
    (loc, e) ∈ setEntry loc e es := by
  induction es with
  | nil => simp [setEntry]
  | cons x rest ih =>
    rw [setEntry]
    split
    · exact List.mem_cons_self
    · split
      · exact List.mem_cons_self
      · exact List.mem_cons_of_mem _ ih

theorem mem_setEntry_of_ne {loc : Location} {e : Entry} {es : List (Location × Entry)}
    {p : Location × Entry} (h : p ∈ es) (hne : p.1 ≠ loc) : p ∈ setEntry loc e es := by
  induction es with
  | nil => exact absurd h List.not_mem_nil
  | cons x rest ih =>
    obtain ⟨k, v⟩ := x
    rw [setEntry]
    split
    · exact List.mem_cons_of_mem _ h
    · split
      case isTrue heq =>
        rcases List.mem_cons.1 h with rfl | h
        · exact absurd heq.symm hne
        · exact List.mem_cons_of_mem _ h
      · rcases List.mem_cons.1 h with rfl | h
        · exact List.mem_cons_self
        · exact List.mem_cons_of_mem _ (ih h)

/-- Sorted by location, each of which occurs once. -/
def Sorted (es : List (Location × Entry)) : Prop :=
  es.Pairwise fun a b => a.1 < b.1

theorem sorted_setEntry {loc : Location} {e : Entry} {es : List (Location × Entry)}
    (h : Sorted es) : Sorted (setEntry loc e es) := by
  induction es with
  | nil => simp [setEntry, Sorted]
  | cons x rest ih =>
    obtain ⟨k, v⟩ := x
    have hx := List.pairwise_cons.1 h
    rw [setEntry]
    split
    case isTrue hlt =>
      refine List.pairwise_cons.2 ⟨fun p hp => ?_, h⟩
      rcases List.mem_cons.1 hp with rfl | hp
      · exact hlt
      · exact List.lt_trans hlt (hx.1 p hp)
    case isFalse hlt =>
      split
      case isTrue heq =>
        subst heq
        exact List.pairwise_cons.2 ⟨hx.1, hx.2⟩
      case isFalse hne =>
        refine List.pairwise_cons.2 ⟨fun p hp => ?_, ih hx.2⟩
        rcases mem_of_mem_setEntry hp with rfl | hp
        · exact (List.le_iff_lt_or_eq.1 (List.not_lt.1 hlt)).resolve_right (Ne.symm hne)
        · exact hx.1 p hp

/-- In a sorted list the entry found for a location is the only one. -/
theorem Sorted.lookup_eq_some_iff {es : List (Location × Entry)} (h : Sorted es) {loc : Location}
    {e : Entry} : es.lookup loc = some e ↔ (loc, e) ∈ es := by
  induction es with
  | nil => simp
  | cons x rest ih =>
    obtain ⟨k, v⟩ := x
    have hx := List.pairwise_cons.1 h
    by_cases hk : loc = k
    · subst hk
      simp only [List.lookup_cons, BEq.rfl, List.mem_cons, Prod.mk.injEq, true_and, Option.some.injEq]
      refine ⟨fun he => .inl he.symm, fun he => ?_⟩
      rcases he with he | he
      · exact he.symm
      · exact absurd (hx.1 _ he) (List.lt_irrefl loc)
    · have : (loc == k) = false := by simpa using hk
      simp [List.lookup_cons, this, hk, ih hx.2]

/-- A sorted list is determined by its members. -/
theorem Sorted.eq_of_mem_iff {es fs : List (Location × Entry)} (he : Sorted es) (hf : Sorted fs)
    (h : ∀ x, x ∈ es ↔ x ∈ fs) : es = fs := by
  induction es generalizing fs with
  | nil => exact (List.eq_nil_iff_forall_not_mem.2 fun x hx => List.not_mem_nil ((h x).2 hx)).symm
  | cons x es ih =>
    cases fs with
    | nil => exact absurd ((h x).1 List.mem_cons_self) List.not_mem_nil
    | cons y fs =>
      have hx := List.pairwise_cons.1 he
      have hy := List.pairwise_cons.1 hf
      have hxy : x = y := by
        rcases List.mem_cons.1 ((h x).1 List.mem_cons_self) with hxy | hxf
        · exact hxy
        · rcases List.mem_cons.1 ((h y).2 List.mem_cons_self) with hyx | hye
          · exact hyx.symm
          · exact absurd (List.lt_trans (hy.1 x hxf) (hx.1 y hye)) (List.lt_irrefl _)
      subst hxy
      refine congrArg (x :: ·) (ih hx.2 hy.2 fun z => ⟨fun hz => ?_, fun hz => ?_⟩)
      · rcases List.mem_cons.1 ((h z).1 (List.mem_cons_of_mem _ hz)) with rfl | hz'
        · exact absurd (hx.1 z hz) (List.lt_irrefl _)
        · exact hz'
      · rcases List.mem_cons.1 ((h z).2 (List.mem_cons_of_mem _ hz)) with rfl | hz'
        · exact absurd (hy.1 z hz) (List.lt_irrefl _)
        · exact hz'

/-- The entries of a tree: sorted, properly named, each in a directory. -/
structure IsTree (es : List (Location × Entry)) : Prop where
  sorted : Sorted es
  named : ∀ x ∈ es, ∀ n ∈ x.1, IsName n
  rooted : ∀ x ∈ es, x.1 ≠ []
  closed : ∀ x ∈ es, x.1.dropLast ≠ [] → (x.1.dropLast, Entry.directory) ∈ es

/-- A tree of files. -/
structure Disk where
  workDir : Location
  entries : List (Location × Entry)
  isTree : IsTree entries

namespace Disk

/-- The tree that holds nothing but the root. -/
def empty : Disk where
  workDir := []
  entries := []
  isTree := ⟨.nil, nofun, nofun, nofun⟩

/-- What lies at a location, if anything does. -/
def get? (d : Disk) (loc : Location) : Option Entry :=
  if loc = [] then some .directory else d.entries.lookup loc

/-- An entry can be put at a location: the location has a proper name in a directory, and a directory
is replaced by a directory only. -/
def Fits (d : Disk) (loc : Location) (e : Entry) : Prop :=
  (∃ n ∈ loc.getLast?, IsName n) ∧ d.get? loc.dropLast = some .directory ∧
    (d.get? loc = some .directory → e = .directory)

instance (d : Disk) (loc : Location) (e : Entry) : Decidable (d.Fits loc e) :=
  inferInstanceAs (Decidable (_ ∧ _ ∧ _))

@[simp]
theorem get?_root (d : Disk) : d.get? [] = some .directory := by
  simp [get?]

theorem get?_eq_some_iff {d : Disk} {loc : Location} {e : Entry} (h : loc ≠ []) :
    d.get? loc = some e ↔ (loc, e) ∈ d.entries := by
  simp [get?, h, d.isTree.sorted.lookup_eq_some_iff]

theorem ne_nil_of_fits {d : Disk} {loc : Location} {e : Entry} (h : d.Fits loc e) : loc ≠ [] := by
  rintro rfl
  obtain ⟨n, hn, _⟩ := h.1
  simp at hn

/-- What lies somewhere lies in a directory. -/
theorem get?_dropLast {d : Disk} {loc : Location} {e : Entry} (h : d.get? loc = some e) :
    d.get? loc.dropLast = some .directory := by
  by_cases hl : loc = []
  · simp [hl]
  · by_cases hd : loc.dropLast = []
    · simp [hd]
    · exact (get?_eq_some_iff hd).2 (d.isTree.closed _ ((get?_eq_some_iff hl).1 h) hd)

theorem isName_of_get? {d : Disk} {loc : Location} {e : Entry} (h : d.get? loc = some e) {n : String}
    (hn : n ∈ loc) : IsName n := by
  have hl : loc ≠ [] := List.ne_nil_of_mem hn
  exact d.isTree.named _ ((get?_eq_some_iff hl).1 h) n hn

private theorem isTree_setEntry {d : Disk} {loc : Location} {e : Entry} (h : d.Fits loc e) :
    IsTree (setEntry loc e d.entries) where
  sorted := sorted_setEntry d.isTree.sorted
  rooted x hx := by
    rcases mem_of_mem_setEntry hx with rfl | hx
    · exact ne_nil_of_fits h
    · exact d.isTree.rooted x hx
  named x hx n hn := by
    rcases mem_of_mem_setEntry hx with rfl | hx
    · have hl := ne_nil_of_fits h
      rw [← List.dropLast_concat_getLast hl] at hn
      rcases List.mem_append.1 hn with hn | hn
      · exact isName_of_get? h.2.1 hn
      · obtain ⟨m, hm, hm'⟩ := h.1
        rw [List.getLast?_eq_some_getLast hl, Option.mem_some_iff] at hm
        rw [List.mem_singleton.1 hn, hm]
        exact hm'
    · exact d.isTree.named x hx n hn
  closed x hx hd := by
    have hl := ne_nil_of_fits h
    have key : ∀ l : Location, l ≠ [] → (l, Entry.directory) ∈ d.entries →
        (l, Entry.directory) ∈ setEntry loc e d.entries := by
      intro l hne hm
      by_cases hk : l = loc
      · subst hk
        rw [h.2.2 ((get?_eq_some_iff hne).2 hm)]
        exact mem_setEntry_self _ _ _
      · exact mem_setEntry_of_ne hm hk
    rcases mem_of_mem_setEntry hx with rfl | hx
    · exact key _ hd ((get?_eq_some_iff hd).1 h.2.1)
    · exact key _ hd (d.isTree.closed x hx hd)

/-- The tree with a new entry at a location; the same tree if it does not fit there. -/
def set (d : Disk) (loc : Location) (e : Entry) : Disk :=
  if h : d.Fits loc e then
    { d with entries := setEntry loc e d.entries, isTree := isTree_setEntry h }
  else d

/-- The tree with only the entries whose location satisfies `keep`. -/
def restrict (d : Disk) (keep : Location → Bool)
    (h : ∀ loc, keep loc → loc.dropLast ≠ [] → keep loc.dropLast) : Disk where
  workDir := d.workDir
  entries := d.entries.filter (keep ·.1)
  isTree := {
    sorted := List.Pairwise.filter _ d.isTree.sorted
    named := fun x hx => d.isTree.named x (List.mem_filter.1 hx).1
    rooted := fun x hx => d.isTree.rooted x (List.mem_filter.1 hx).1
    closed := fun x hx hd =>
      List.mem_filter.2 ⟨d.isTree.closed x (List.mem_filter.1 hx).1 hd,
        h x.1 (List.mem_filter.1 hx).2 hd⟩ }

/-- Lies below a location, at any depth. -/
def isBelow (base loc : Location) : Bool :=
  base.isPrefixOf loc && loc ≠ base

theorem isPrefixOf_of_dropLast {base loc : Location} (h : base.isPrefixOf loc.dropLast) :
    base.isPrefixOf loc := by
  rw [List.isPrefixOf_iff_prefix] at h ⊢
  exact h.trans (List.dropLast_prefix loc)

theorem isBelow_of_dropLast {base loc : Location} (h : isBelow base loc.dropLast) :
    isBelow base loc := by
  simp only [isBelow, Bool.and_eq_true, decide_eq_true_eq] at h ⊢
  refine ⟨isPrefixOf_of_dropLast h.1, fun he => h.2 ?_⟩
  rw [he] at h ⊢
  rw [List.isPrefixOf_iff_prefix] at h
  exact (List.IsPrefix.eq_of_length_le h.1 (by simp)).symm

/-- The tree without what lies below a location. -/
def eraseBelow (d : Disk) (base : Location) : Disk :=
  d.restrict (!isBelow base ·) fun loc h _ => by
    simp only [Bool.not_eq_true'] at h ⊢
    exact Bool.eq_false_iff.2 fun h' => absurd (isBelow_of_dropLast h') (by simp [h])

/-- The tree without what lies at a location and below it. -/
def erase (d : Disk) (base : Location) : Disk :=
  d.restrict (!base.isPrefixOf ·) fun loc h _ => by
    simp only [Bool.not_eq_true'] at h ⊢
    exact Bool.eq_false_iff.2 fun h' => absurd (isPrefixOf_of_dropLast h') (by simp [h])

/-- The tree with another working directory. -/
def within (d : Disk) (loc : Location) : Disk :=
  { d with workDir := loc }

/-- What lies below a location, with locations relative to it, in sorted order. -/
def below (d : Disk) (base : Location) : List (Location × Entry) :=
  (d.entries.filter (isBelow base ·.1)).map fun (loc, e) => (loc.drop base.length, e)

end Disk

end LocaleForge
