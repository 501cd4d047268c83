/-!
Cutting a text at a separator and joining the pieces again. Joining undoes cutting; cutting undoes
joining when no piece holds the separator.
-/

namespace LocaleForge.Text

/-- The pieces of `cs` between the occurrences of `sep`: one more piece than there are separators. -/
def pieces (sep : Char) : List Char → List (List Char)
  | [] => [[]]
  | c :: cs =>
    if c = sep then [] :: pieces sep cs
    else
      match pieces sep cs with
      | [] => [[c]]
      | p :: ps => (c :: p) :: ps

/-- The pieces one after another with one `sep` between neighbours. -/
def glue (sep : Char) : List (List Char) → List Char
  | [] => []
  | [p] => p
  | p :: q :: ps => p ++ sep :: glue sep (q :: ps)

theorem pieces_ne_nil (sep : Char) (cs : List Char) : pieces sep cs ≠ [] := by
  cases cs with
  | nil => simp [pieces]
  | cons c cs =>
    rw [pieces]
    split
    · simp
    · split <;> simp

theorem pieces_cons_sep (sep : Char) (cs : List Char) :
    pieces sep (sep :: cs) = [] :: pieces sep cs := by
  simp [pieces]

theorem pieces_cons_ne {sep c : Char} (h : c ≠ sep) {cs p : List Char} {ps : List (List Char)}
    (hp : pieces sep cs = p :: ps) : pieces sep (c :: cs) = (c :: p) :: ps := by
  simp [pieces, h, hp]

theorem glue_cons (sep : Char) (p : List Char) {ps : List (List Char)} (h : ps ≠ []) :
    glue sep (p :: ps) = p ++ sep :: glue sep ps := by
  cases ps with
  | nil => exact absurd rfl h
  | cons q ps => rfl

/-- Joining undoes cutting. -/
theorem glue_pieces (sep : Char) (cs : List Char) : glue sep (pieces sep cs) = cs := by
  induction cs with
  | nil => rfl
  | cons c cs ih =>
    by_cases h : c = sep
    · subst h
      rw [pieces_cons_sep, glue_cons _ _ (pieces_ne_nil _ _), ih]
      rfl
    · obtain ⟨p, ps, hp⟩ := List.exists_cons_of_ne_nil (pieces_ne_nil sep cs)
      rw [pieces_cons_ne h hp]
      rw [hp] at ih
      cases ps with
      | nil => simpa [glue] using ih
      | cons q ps => simpa [glue] using ih

/-- No piece holds the separator. -/
theorem sep_notMem_of_mem_pieces {sep : Char} {cs p : List Char} (h : p ∈ pieces sep cs) :
    sep ∉ p := by
  induction cs generalizing p with
  | nil => simp [pieces] at h; simp [h]
  | cons c cs ih =>
    by_cases hc : c = sep
    · subst hc
      rw [pieces_cons_sep] at h
      rcases List.mem_cons.1 h with rfl | h
      · simp
      · exact ih h
    · obtain ⟨q, qs, hq⟩ := List.exists_cons_of_ne_nil (pieces_ne_nil sep cs)
      rw [pieces_cons_ne hc hq] at h
      rw [hq] at ih
      rcases List.mem_cons.1 h with rfl | h
      · simpa [Ne.symm hc] using ih List.mem_cons_self
      · exact ih (List.mem_cons_of_mem _ h)

theorem pieces_of_notMem {sep : Char} {cs : List Char} (h : sep ∉ cs) : pieces sep cs = [cs] := by
  induction cs with
  | nil => rfl
  | cons c cs ih =>
    simp only [List.mem_cons, not_or] at h
    exact pieces_cons_ne (Ne.symm h.1) (ih h.2)

theorem pieces_append_sep {sep : Char} {p : List Char} (h : sep ∉ p) (cs : List Char) :
    pieces sep (p ++ sep :: cs) = p :: pieces sep cs := by
  induction p with
  | nil => exact pieces_cons_sep sep cs
  | cons c p ih =>
    simp only [List.mem_cons, not_or] at h
    exact pieces_cons_ne (Ne.symm h.1) (ih h.2)

theorem pieces_append_cons_sep (sep : Char) (cs ds : List Char) :
    pieces sep (cs ++ sep :: ds) = pieces sep cs ++ pieces sep ds := by
  induction cs with
  | nil => exact pieces_cons_sep sep ds
  | cons c cs ih =>
    by_cases h : c = sep
    · subst h
      rw [List.cons_append, pieces_cons_sep, pieces_cons_sep, ih, List.cons_append]
    · obtain ⟨p, ps, hp⟩ := List.exists_cons_of_ne_nil (pieces_ne_nil sep cs)
      rw [pieces_cons_ne h hp]
      rw [hp] at ih
      exact pieces_cons_ne h ih

/-- Cutting undoes joining when no piece holds the separator. -/
theorem pieces_glue {sep : Char} {ps : List (List Char)} (hne : ps ≠ [])
    (h : ∀ p ∈ ps, sep ∉ p) : pieces sep (glue sep ps) = ps := by
  induction ps with
  | nil => exact absurd rfl hne
  | cons p ps ih =>
    cases ps with
    | nil => exact pieces_of_notMem (h p List.mem_cons_self)
    | cons q ps =>
      rw [glue, pieces_append_sep (h p List.mem_cons_self),
        ih (by simp) (fun r hr => h r (List.mem_cons_of_mem _ hr))]

theorem glue_concat {sep : Char} {p : List Char} {ps : List (List Char)} (h : ps ≠ []) :
    glue sep (ps ++ [p]) = glue sep ps ++ sep :: p := by
  induction ps with
  | nil => exact absurd rfl h
  | cons q ps ih =>
    cases ps with
    | nil => rfl
    | cons r ps =>
      rw [List.cons_append, glue_cons sep q (by simp), ih (List.cons_ne_nil r ps),
        glue_cons sep q (List.cons_ne_nil r ps), List.append_assoc, List.cons_append]

theorem subset_glue {sep : Char} {p : List Char} {ps : List (List Char)} (h : p ∈ ps) :
    p ⊆ glue sep ps := by
  induction ps with
  | nil => cases h
  | cons q ps ih =>
    cases ps with
    | nil =>
      rw [List.mem_singleton.1 h]
      exact List.Subset.refl _
    | cons r ps =>
      rw [glue_cons sep q (List.cons_ne_nil r ps)]
      rcases List.mem_cons.1 h with rfl | h
      · exact List.subset_append_left _ _
      · exact List.Subset.trans (ih h) (List.subset_append_of_subset_right q (List.subset_cons_self sep _))

/-- The pieces of a text between the occurrences of `sep`. -/
def cut (sep : Char) (s : String) : List String :=
  (pieces sep s.toList).map String.ofList

/-- The texts one after another with one `sep` between neighbours. -/
def join (sep : Char) (ss : List String) : String :=
  String.ofList (glue sep (ss.map String.toList))

theorem cut_ne_nil (sep : Char) (s : String) : cut sep s ≠ [] := by
  simp [cut, pieces_ne_nil]

theorem sep_notMem_of_mem_cut {sep : Char} {s p : String} (h : p ∈ cut sep s) :
    sep ∉ p.toList := by
  obtain ⟨cs, hcs, rfl⟩ := List.mem_map.1 h
  rw [String.toList_ofList]
  exact sep_notMem_of_mem_pieces hcs

/-- Around a separator both parts of a text are cut by themselves. -/
theorem cut_eq_append {sep : Char} {s a b : String} (h : s.toList = a.toList ++ sep :: b.toList) :
    cut sep s = cut sep a ++ cut sep b := by
  rw [cut, h, pieces_append_cons_sep, List.map_append, cut, cut]

theorem cut_of_notMem {sep : Char} {s : String} (h : sep ∉ s.toList) : cut sep s = [s] := by
  rw [cut, pieces_of_notMem h, List.map_singleton, String.ofList_toList]

/-- Each piece is made of characters of the text. -/
theorem subset_of_mem_cut {sep : Char} {s p : String} (h : p ∈ cut sep s) : p.toList ⊆ s.toList := by
  obtain ⟨cs, hcs, rfl⟩ := List.mem_map.1 h
  have hglue := @subset_glue sep cs _ hcs
  rwa [glue_pieces, ← @String.toList_ofList cs] at hglue

theorem toList_join_concat {sep : Char} {ss : List String} {s : String} (h : ss ≠ []) :
    (join sep (ss ++ [s])).toList = (join sep ss).toList ++ sep :: s.toList := by
  rw [join, join, String.toList_ofList, String.toList_ofList, List.map_append]
  exact glue_concat (by simpa using h)

theorem join_cut (sep : Char) (s : String) : join sep (cut sep s) = s := by
  simp [join, cut, Function.comp_def, glue_pieces]

theorem cut_join {sep : Char} {ss : List String} (hne : ss ≠ [])
    (h : ∀ s ∈ ss, sep ∉ s.toList) : cut sep (join sep ss) = ss := by
  have : pieces sep (glue sep (ss.map String.toList)) = ss.map String.toList :=
    pieces_glue (by simpa using hne) (by simpa using h)
  simp [join, cut, this, Function.comp_def]

/-- The lines of a text; a final newline is followed by one empty line. -/
def lines (s : String) : List String :=
  cut '\n' s

/-- The text whose lines these are. -/
def unlines (ls : List String) : String :=
  join '\n' ls

theorem unlines_lines (s : String) : unlines (lines s) = s :=
  join_cut '\n' s

theorem lines_unlines {ls : List String} (hne : ls ≠ []) (h : ∀ l ∈ ls, '\n' ∉ l.toList) :
    lines (unlines ls) = ls :=
  cut_join hne h

/-- The text without its first `n` lines; empty when it has no more than `n`. -/
def dropLines (n : Nat) (s : String) : String :=
  unlines ((lines s).drop n)

theorem dropLines_zero (s : String) : dropLines 0 s = s :=
  unlines_lines s

end LocaleForge.Text
