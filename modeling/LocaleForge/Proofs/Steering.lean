import LocaleForge.Proofs.Ancestors

/-!
Paths that keep clear of certain places. Where they lead does not depend on what lies there.
-/

namespace LocaleForge

namespace Path

variable {p q : Path} {dir : Location} {ps rs : List String}

/-- The places that a path leads through from a directory. -/
def passes : Location → List String → List Location
  | _, [] => []
  | dir, name :: names =>
    if name = ".." then passes dir.dropLast names else (dir ++ [name]) :: passes (dir ++ [name]) names

/-- Where a path leads from a directory. -/
def ends : Location → List String → Location
  | dir, [] => dir
  | dir, name :: names => if name = ".." then ends dir.dropLast names else ends (dir ++ [name]) names

theorem passes_append (dir : Location) (ps rs : List String) :
    passes dir (ps ++ rs) = passes dir ps ++ passes (ends dir ps) rs := by
  induction ps generalizing dir with
  | nil => rfl
  | cons p ps ih =>
    rw [List.cons_append, passes, passes, ends]
    split
    · exact ih _
    · rw [ih, List.cons_append]

theorem ends_append (hup : ".." ∉ rs) : ends dir (ps ++ rs) = ends dir ps ++ rs := by
  induction ps generalizing dir with
  | nil =>
    rw [List.nil_append, ends]
    induction rs generalizing dir with
    | nil => simp [ends]
    | cons r rs ih =>
      rw [List.mem_cons, not_or] at hup
      rw [ends, if_neg (Ne.symm hup.1), ih hup.2, List.append_assoc, List.singleton_append]
  | cons p ps ih =>
    rw [List.cons_append, ends, ends]
    split
    · exact ih
    · exact ih

/-- What goes down only passes places below. -/
theorem isBelow_of_mem_passes (hup : ".." ∉ ps) {l : Location} (h : l ∈ passes dir ps) :
    Disk.isBelow dir l = true := by
  induction ps generalizing dir with
  | nil => exact absurd h List.not_mem_nil
  | cons p ps ih =>
    rw [List.mem_cons, not_or] at hup
    rw [passes, if_neg (Ne.symm hup.1)] at h
    rcases List.mem_cons.1 h with rfl | h
    · exact Disk.isBelow_iff.2 ⟨List.prefix_append dir [p], by simp⟩
    · exact Disk.isBelow_of_append (ih hup.2 h)

/-! ## The directory that a path is looked up in -/

theorem isAbsolute_iff_cut : p.isAbsolute = true ↔ ∃ q qs, Text.cut '/' p.text = "" :: q :: qs := by
  constructor
  · intro h
    obtain ⟨cs, hcs⟩ := List.head?_eq_some_iff.1 (beq_iff_eq.1 h)
    obtain ⟨q, qs, hq⟩ := List.exists_cons_of_ne_nil (Text.pieces_ne_nil '/' cs)
    refine ⟨String.ofList q, qs.map String.ofList, ?_⟩
    rw [Text.cut, hcs, Text.pieces_cons_sep, hq]
    rfl
  · rintro ⟨q, qs, h⟩
    have htext := Text.join_cut '/' p.text
    rw [h] at htext
    rw [isAbsolute, ← htext, Text.join, String.toList_ofList]
    rfl

/-- The path of this directory names at most what the path itself names. -/
theorem names_frontOf (p : Path) : (Disk.frontOf p).isAbsolute = p.isAbsolute ∧
    names (Text.cut '/' (Disk.frontOf p).text) <+: names (Text.cut '/' p.text) := by
  obtain ⟨habs, hnames⟩ := p.names_bare
  rw [← habs, ← hnames, Disk.frontOf]
  split
  case h_1 h => exact absurd h (Text.cut_ne_nil '/' _)
  case h_2 x h =>
    refine ⟨?_, List.nil_prefix⟩
    refine (Bool.eq_false_iff.2 fun ha => ?_).symm
    obtain ⟨q, qs, hq⟩ := isAbsolute_iff_cut.1 ha
    rw [h] at hq
    cases hq
  case h_3 hnil hsingle =>
    -- The pieces but the last one, of which there is one at least.
    obtain ⟨x, xs, hx⟩ := List.exists_cons_of_ne_nil (Text.cut_ne_nil '/' (Disk.bare p).text)
    have hxs : xs ≠ [] := by
      rintro rfl
      exact hsingle x hx
    have hcut : Text.cut '/' (Text.join '/' ((Text.cut '/' (Disk.bare p).text).dropLast ++ ["."])) =
        (Text.cut '/' (Disk.bare p).text).dropLast ++ ["."] := by
      refine Text.cut_join (by simp) fun s hs => ?_
      rcases List.mem_append.1 hs with hs | hs
      · exact Text.sep_notMem_of_mem_cut ((List.dropLast_prefix _).subset hs)
      · rw [List.mem_singleton.1 hs]
        decide
    constructor
    · rw [Bool.eq_iff_iff, isAbsolute_iff_cut, isAbsolute_iff_cut, hcut, hx,
        List.dropLast_cons_of_ne_nil hxs]
      obtain ⟨y, ys, hy⟩ := List.exists_cons_of_ne_nil hxs
      obtain ⟨z, zs, hz⟩ := List.exists_cons_of_ne_nil (show xs.dropLast ++ ["."] ≠ [] by simp)
      rw [List.cons_append, hz, hy]
      simp
    · rw [hcut, names_concat_idle isIdle_here]
      have hlast := (List.dropLast_prefix (Text.cut '/' (Disk.bare p).text)).filter (!isIdle ·)
      exact hlast
/-! ## Keeping clear -/

/-- Where the walk along a path begins, for a working directory. -/
def start (workDir : Location) (p : Path) : Location :=
  if p.isAbsolute then [] else workDir

/-- The path leads through none of the places. -/
def Steers (workDir : Location) (places : Location → Prop) (p : Path) : Prop :=
  ∀ l ∈ passes (p.start workDir) (names (Text.cut '/' p.text)), ¬ places l

/-- The path leads through none of the places, and none of them lies below where it leads. -/
structure Clear (workDir : Location) (places : Location → Prop) (p : Path) : Prop where
  steers : p.Steers workDir places
  below : ∀ l, Disk.isBelow (ends (p.start workDir) (names (Text.cut '/' p.text))) l = true → ¬ places l

variable {workDir : Location} {places : Location → Prop}

theorem Steers.front (h : p.Steers workDir places) (ha : q.isAbsolute = p.isAbsolute)
    (hn : names (Text.cut '/' q.text) <+: names (Text.cut '/' p.text)) : q.Steers workDir places := by
  obtain ⟨rest, hrest⟩ := hn
  intro l hl
  refine h l ?_
  rw [← hrest, passes_append, start, ← ha]
  exact List.mem_append_left _ hl

theorem Steers.parent (h : p.Steers workDir places) (hp : p.parent? = some q) :
    q.Steers workDir places := by
  obtain ⟨ha, hn⟩ := names_parent hp
  exact h.front ha (hn ▸ List.dropLast_prefix _)

theorem Steers.bare (h : p.Steers workDir places) : (Disk.bare p).Steers workDir places :=
  h.front p.names_bare.1 (p.names_bare.2 ▸ List.prefix_rfl)

theorem Steers.frontOf (h : p.Steers workDir places) : (Disk.frontOf p).Steers workDir places :=
  h.front p.names_frontOf.1 p.names_frontOf.2

theorem names_join (p : Path) {rel : String} (h : (Path.mk rel).isAbsolute = false) :
    names (Text.cut '/' (p.join rel).text) = names (Text.cut '/' p.text) ++ names (Text.cut '/' rel) := by
  obtain ⟨ps, hp, hj⟩ := p.cut_join h
  rw [hj, names_append, names_front hp]

/-- Below a clear path nothing is in the way. -/
theorem Clear.join (h : p.Clear workDir places) {rel : String} (hrel : Plain rel) :
    (p.join rel).Clear workDir places := by
  have hup : ".." ∉ names (Text.cut '/' rel) := fun hmem => hrel.noUp (List.mem_of_mem_filter hmem)
  have hnames := p.names_join hrel.relative
  constructor
  · intro l hl
    rw [start, p.isAbsolute_join hrel.relative, ← start, hnames, passes_append, List.mem_append] at hl
    rcases hl with hl | hl
    · exact h.steers l hl
    · exact h.below l (isBelow_of_mem_passes hup hl)
  · intro l hl
    rw [start, p.isAbsolute_join hrel.relative, ← start, hnames] at hl
    exact h.below l (Disk.isBelow_of_append (ends_append hup ▸ hl))

end Path

end LocaleForge
