import LocaleForge.Disk.Basic
import LocaleForge.Path

/-!
Paths that are joined from a directory and a relative path that goes down only.
-/

namespace LocaleForge

namespace Path

/-- The pieces of a path that name something. -/
def names (ps : List String) : Location :=
  ps.filter (!isIdle ·)

/-- A relative path that goes down only. -/
structure Plain (rel : String) : Prop where
  relative : (Path.mk rel).isAbsolute = false
  noUp : ".." ∉ Text.cut '/' rel

/-- A path that is joined from a directory and goes down only from there. -/
def Beneath (dir p : Path) : Prop :=
  ∃ rel, Plain rel ∧ p = dir.join rel

theorem Plain.beneath {rel : String} (h : Plain rel) (dir : Path) : dir.Beneath (dir.join rel) :=
  ⟨rel, h, rfl⟩

@[simp]
theorem names_nil : names [] = [] :=
  rfl

theorem names_append (ps qs : List String) : names (ps ++ qs) = names ps ++ names qs :=
  List.filter_append ps qs

theorem names_idle {p : String} (h : isIdle p = true) (ps : List String) :
    names (p :: ps) = names ps := by
  simp [names, h]

theorem names_cons {p : String} (h : isIdle p = false) (ps : List String) :
    names (p :: ps) = p :: names ps := by
  simp [names, h]

theorem names_names (ps : List String) : names (names ps) = names ps := by
  simp [names]

/-- The piece that a step is written as. -/
def Component.piece? : Component → Option String
  | up => some ".."
  | name text => some text
  | _ => none

theorem piece?_step (piece : String) : (step piece).piece? = some piece := by
  rw [step]
  split
  case isTrue h => rw [Component.piece?, beq_iff_eq.1 h]
  case isFalse => rfl

theorem filterMap_piece?_components (p : Path) :
    p.components.filterMap Component.piece? = names p.pieces := by
  have hsteps : ∀ ps : List String, (ps.map step).filterMap Component.piece? = ps := by
    intro ps
    induction ps with
    | nil => rfl
    | cons p ps ih => rw [List.map_cons, List.filterMap_cons, piece?_step, ih]
  rw [components]
  split
  · exact hsteps _
  · split
    · exact hsteps _
    · exact hsteps _

theorem isAbsolute_eq (p : Path) : p.isAbsolute = (p.components.head? == some .root) := by
  have hstep : ∀ ps : List String, ((ps.map step).head? == some .root) = false := by
    intro ps
    cases ps with
    | nil => rfl
    | cons p ps =>
      rw [List.map_cons, List.head?_cons, step]
      split <;> rfl
  rw [components]
  split
  case isTrue h => exact h
  case isFalse h =>
    rw [Bool.eq_false_iff.2 h]
    split
    · rfl
    · exact (hstep _).symm

theorem names_pieces (p : Path) : names p.pieces = names (Text.cut '/' p.text) := by
  rw [pieces]
  split
  case isTrue ha =>
    obtain ⟨cs, hcs⟩ := List.head?_eq_some_iff.1 (beq_iff_eq.1 ha)
    rw [Text.cut, hcs, Text.pieces_cons_sep, List.map_cons, names_idle rfl, List.tail_cons]
  case isFalse => rfl

/-- Paths with the same steps begin at the same place and name the same things. -/
theorem names_eq_of_components {p q : Path} (h : p.components = q.components) :
    p.isAbsolute = q.isAbsolute ∧ names (Text.cut '/' p.text) = names (Text.cut '/' q.text) := by
  rw [isAbsolute_eq, isAbsolute_eq, h, ← names_pieces, ← names_pieces,
    ← filterMap_piece?_components, h, filterMap_piece?_components]
  exact ⟨rfl, rfl⟩

/-! ## Joined paths -/

theorem cut_append_slash (a b : String) :
    Text.cut '/' (a ++ "/" ++ b) = Text.cut '/' a ++ Text.cut '/' b :=
  Text.cut_eq_append (by simp)

/-- The pieces of a joined path. Where the first path is empty or ends in a slash, its last piece is
lost, which is empty. -/
theorem cut_join (p : Path) {rel : String} (h : (Path.mk rel).isAbsolute = false) :
    ∃ ps, (Text.cut '/' p.text = ps ∨ Text.cut '/' p.text = ps ++ [""]) ∧
      Text.cut '/' (p.join rel).text = ps ++ Text.cut '/' rel := by
  rw [join, h, if_neg Bool.false_ne_true]
  split
  case isTrue hend =>
    rcases Bool.or_eq_true_iff.1 hend with hempty | hslash
    · have ht : p.text = "" := String.isEmpty_iff.1 hempty
      refine ⟨[], .inr ?_, ?_⟩
      · rw [ht]
        rfl
      · simp [ht]
    · obtain ⟨cs, hcs⟩ := List.getLast?_eq_some_iff.1 (beq_iff_eq.1 hslash)
      have ht : p.text = String.ofList cs ++ "/" := by
        apply String.toList_injective
        rw [hcs]
        simp
      refine ⟨Text.cut '/' (String.ofList cs), .inr ?_, ?_⟩
      · have := cut_append_slash (String.ofList cs) ""
        rw [String.append_empty] at this
        rw [ht, this]
        rfl
      · simp only [ht, cut_append_slash]
  case isFalse => exact ⟨Text.cut '/' p.text, .inl rfl, cut_append_slash _ _⟩

/-- An empty piece at the end names nothing. -/
theorem names_front {ps qs : List String} (h : qs = ps ∨ qs = ps ++ [""]) : names qs = names ps := by
  rcases h with h | h
  · rw [h]
  · rw [h, names_append, names_idle rfl, names_nil, List.append_nil]

theorem isAbsolute_join (p : Path) {rel : String} (h : (Path.mk rel).isAbsolute = false) :
    (p.join rel).isAbsolute = p.isAbsolute := by
  rw [join, h, if_neg Bool.false_ne_true]
  by_cases ht : p.text = ""
  · have hp : p.isAbsolute = false := by simp [isAbsolute, ht]
    rw [hp, ht]
    simpa [isAbsolute] using h
  · obtain ⟨c, cs, hcs⟩ := List.exists_cons_of_ne_nil
      (fun hn => ht (String.toList_injective (by simpa using hn)) : p.text.toList ≠ [])
    split <;> simp [isAbsolute, hcs]

theorem Plain.not_isAbsolute {rel : String} (h : Plain rel) : ¬ (Path.mk rel).isAbsolute = true :=
  Bool.eq_false_iff.1 h.relative

/-! ## Single names -/

theorem empty_mem_cut_of_isAbsolute {p : Path} (h : p.isAbsolute = true) :
    "" ∈ Text.cut '/' p.text := by
  obtain ⟨cs, hcs⟩ := List.head?_eq_some_iff.1 (beq_iff_eq.1 h)
  rw [Text.cut, hcs, Text.pieces_cons_sep]
  exact List.mem_cons_self

/-- A name without slashes that can follow any path. -/
structure Simple (name : String) : Prop where
  noSlash : '/' ∉ name.toList
  notIdle : isIdle name = false
  notUp : name ≠ ".."

theorem simple_of_isName {name : String} (h : IsName name) : Simple name where
  noSlash := h.2.2.2
  notIdle := by simp [isIdle, h.1, h.2.1]
  notUp := h.2.2.1

theorem Simple.cut {name : String} (h : Simple name) : Text.cut '/' name = [name] :=
  Text.cut_of_notMem h.noSlash

theorem Simple.relative {name : String} (h : Simple name) : (Path.mk name).isAbsolute = false := by
  rw [isAbsolute]
  refine beq_eq_false_iff_ne.2 fun hhead => h.noSlash ?_
  exact List.mem_of_mem_head? hhead

theorem Simple.plain {name : String} (h : Simple name) : Plain name where
  relative := h.relative
  noUp := by
    rw [h.cut, List.mem_singleton]
    exact Ne.symm h.notUp

theorem exists_join_eq (p : Path) :
    ∃ front : String, ∀ {rel : String}, (Path.mk rel).isAbsolute = false → p.join rel = ⟨front ++ rel⟩ := by
  by_cases h : (p.text.isEmpty || p.text.toList.getLast? == some '/') = true
  · exact ⟨p.text, fun hrel => by rw [join, hrel, if_neg Bool.false_ne_true, if_pos h]⟩
  · exact ⟨p.text ++ "/", fun hrel => by rw [join, hrel, if_neg Bool.false_ne_true, if_neg h]⟩

theorem exists_text_join (p : Path) {rel : String} (h : (Path.mk rel).isAbsolute = false) :
    ∃ sep : String, '\x00' ∉ sep.toList ∧ (p.join rel).text = p.text ++ sep ++ rel := by
  rw [join, h, if_neg Bool.false_ne_true]
  split
  · exact ⟨"", by decide, by rw [String.append_empty]⟩
  · exact ⟨"/", by decide, rfl⟩

theorem text_prefix_join (p : Path) {rel : String} (h : (Path.mk rel).isAbsolute = false) :
    ∃ rest, (p.join rel).text = p.text ++ rest := by
  obtain ⟨sep, -, htext⟩ := p.exists_text_join h
  exact ⟨sep ++ rel, by rw [htext, String.append_assoc]⟩

theorem Simple.ne_nil {name : String} (h : Simple name) : name.toList ≠ [] := by
  intro hn
  have : name = "" := String.toList_injective (by simpa using hn)
  exact absurd h.notIdle (by rw [this]; decide)

theorem Simple.getLast?_append {name : String} (h : Simple name) (front : String) :
    (front ++ name).toList.getLast? ≠ some '/' := by
  rw [String.toList_append, List.getLast?_append, List.getLast?_eq_some_getLast h.ne_nil, Option.some_or,
    ← List.getLast?_eq_some_getLast h.ne_nil]
  exact fun hslash => h.noSlash (List.mem_of_getLast? hslash)

/-- What goes down from a name goes down. -/
theorem Plain.below {name rel : String} (hrel : Plain rel) (h : Simple name) :
    Plain (name ++ "/" ++ rel) where
  relative := by
    obtain ⟨c, cs, hcs⟩ := List.exists_cons_of_ne_nil h.ne_nil
    have := h.relative
    simp only [isAbsolute, hcs, String.toList_append] at this ⊢
    simpa using this
  noUp := by
    rw [cut_append_slash, h.cut, List.singleton_append, List.mem_cons, not_or]
    exact ⟨Ne.symm h.notUp, hrel.noUp⟩

/-- A path below a named directory can be joined at once. -/
theorem join_join (p : Path) {name rel : String} (h : Simple name) (hrel : Plain rel) :
    (p.join name).join rel = p.join (name ++ "/" ++ rel) := by
  have hname := h.ne_nil
  obtain ⟨front, hfront⟩ := p.exists_join_eq
  rw [hfront h.relative, hfront (hrel.below h).relative, join, if_neg hrel.not_isAbsolute, if_neg]
  · simp only [String.append_assoc]
  · -- The name does not end in a slash, and it is not empty.
    have hlast : (front ++ name).toList.getLast? = name.toList.getLast? := by
      rw [String.toList_append, List.getLast?_append, List.getLast?_eq_some_getLast hname,
        Option.some_or]
    have hslash : name.toList.getLast? ≠ some '/' := fun hl => h.noSlash (List.mem_of_getLast? hl)
    have hne : (front ++ name).isEmpty = false := by
      refine Bool.eq_false_iff.2 fun he => hname ?_
      have := congrArg String.toList (String.isEmpty_iff.1 he)
      simp only [String.toList_append] at this
      exact (List.append_eq_nil_iff.1 this).2
    simp only [hne, hlast, Bool.false_or, beq_iff_eq]
    exact hslash

theorem fileName?_of_pieces {p : Path} {front : List String} {name : String}
    (hp : p.pieces = front ++ [name]) (h : Simple name) : p.fileName? = some name := by
  have hlast : p.components.getLast? = some (.name name) := by
    have hsteps : (p.pieces.filter (!isIdle ·)).map step =
        (front.filter (!isIdle ·)).map step ++ [.name name] := by
      rw [hp, List.filter_append, List.map_append]
      simp [h.notIdle, step, h.notUp]
    rw [components]
    simp only [hsteps]
    split
    · rw [← List.cons_append, List.getLast?_concat]
    · split
      · rw [← List.cons_append, List.getLast?_concat]
      · rw [List.getLast?_concat]
  rw [fileName?, hlast]

/-- The last piece is the file's name, if it is a name. -/
theorem fileName?_of_cut {p : Path} {front : List String} {name : String}
    (hp : Text.cut '/' p.text = front ++ [name]) (h : Simple name) : p.fileName? = some name := by
  have hpieces : ∃ qs, p.pieces = qs ++ [name] := by
    rw [pieces, hp]
    split
    case isTrue ha =>
      cases front with
      | nil =>
        have hempty := empty_mem_cut_of_isAbsolute ha
        rw [hp, List.nil_append, List.mem_singleton] at hempty
        exact absurd h.notIdle (by rw [← hempty]; decide)
      | cons q qs => exact ⟨qs, rfl⟩
    case isFalse => exact ⟨front, rfl⟩
  obtain ⟨qs, hqs⟩ := hpieces
  exact fileName?_of_pieces hqs h

theorem fileName?_join (p : Path) {name : String} (h : Simple name) :
    (p.join name).fileName? = some name := by
  obtain ⟨ps, hp, hj⟩ := p.cut_join h.relative
  rw [h.cut] at hj
  exact fileName?_of_cut hj h

theorem mem_cut_of_mem_pieces {p : Path} {piece : String} (h : piece ∈ p.pieces) :
    piece ∈ Text.cut '/' p.text := by
  rw [pieces] at h
  split at h
  · exact List.mem_of_mem_tail h
  · exact h

theorem mem_pieces_of_fileName? {p : Path} {name : String} (h : p.fileName? = some name) :
    name ∈ p.pieces ∧ isIdle name = false ∧ name ≠ ".." := by
  rw [fileName?] at h
  split at h
  case h_1 n hlast =>
    cases h
    have hmem := List.mem_of_getLast? hlast
    have hstep : Component.name name ∈ (p.pieces.filter (!isIdle ·)).map step := by
      rw [components] at hmem
      split at hmem
      · simpa using hmem
      · split at hmem
        · simpa using hmem
        · exact hmem
    obtain ⟨piece, hpiece, hname⟩ := List.mem_map.1 hstep
    rw [step] at hname
    split at hname
    case isTrue => cases hname
    case isFalse hup =>
      cases hname
      obtain ⟨hmem, hidle⟩ := List.mem_filter.1 hpiece
      exact ⟨hmem, by simpa using hidle, by simpa using hup⟩
  case h_2 => cases h

theorem Simple.of_fileName? {p : Path} {name : String} (h : p.fileName? = some name) :
    Simple name := by
  obtain ⟨hmem, hidle, hup⟩ := mem_pieces_of_fileName? h
  exact ⟨Text.sep_notMem_of_mem_cut (mem_cut_of_mem_pieces hmem), hidle, hup⟩

end Path

end LocaleForge
