import LocaleForge.Proofs.Directories
import LocaleForge.Proofs.Locations

/-!
A file by its path from a directory. Joining the path to the directory adds the steps of the file, and
taking the directory away again leaves the path as it was written.
-/

namespace LocaleForge.Path

open Disk (Inside relativePath)

variable {p : Path} {rel : Location} {piece : String} {ps qs : List String}

/-! ## Steps -/

theorem step_of_isName (h : IsName piece) : step piece = .name piece := by
  rw [step, if_neg (by simpa using (simple_of_isName h).notUp)]

theorem map_step_of_isName (h : ∀ n ∈ rel, IsName n) : rel.map step = rel.map .name :=
  List.map_congr_left fun n hn => step_of_isName (h n hn)

theorem components_eq (p : Path) : p.components =
    (if p.isAbsolute then [.root] else if p.pieces.head? = some "." then [.here] else []) ++
      (names p.pieces).map step := by
  rw [components]
  cases p.isAbsolute with
  | true => rfl
  | false =>
    simp only [Bool.false_eq_true, if_false, beq_iff_eq]
    split <;> rfl

/-- A file of a directory has the steps of the directory and those down to the file. -/
theorem components_join (p : Path) (h : Inside rel) :
    (p.join (relativePath rel)).components = p.components ++ rel.map .name := by
  obtain ⟨ps, hp, hj⟩ := p.pieces_join h.plain.relative
  have hnames := names_front hp
  rw [h.cut] at hj
  have hhead : (ps ++ rel).head? = some "." ↔ p.pieces.head? = some "." := by
    cases ps with
    | cons q ps => rcases hp with hp | hp <;> rw [hp] <;> rfl
    | nil =>
      -- Neither an empty path nor a name is a single dot.
      obtain ⟨n, rest, rfl⟩ := List.exists_cons_of_ne_nil h.notEmpty
      have hdot : n ≠ "." := (h.named n List.mem_cons_self).2.1
      rcases hp with hp | hp <;> rw [hp] <;> simp [hdot]
  rw [components_eq, components_eq, hj, p.isAbsolute_join h.plain.relative, hnames, names_append,
    Disk.names_of_isName h.named, List.map_append, map_step_of_isName h.named]
  simp only [hhead, List.append_assoc]

/-! ## Taking a directory away -/

theorem dropWhile_dropSteps (ps qs : List String) :
    (dropSteps (names ps).length (ps ++ qs)).dropWhile isIdle = qs.dropWhile isIdle := by
  induction ps with
  | nil => rw [names_nil, List.length_nil, List.nil_append, dropSteps]
  | cons p ps ih =>
    cases hidle : isIdle p with
    | false =>
      rw [names_cons hidle, List.length_cons, List.cons_append, dropSteps, hidle,
        if_neg Bool.false_ne_true, ih]
    | true =>
      rw [names_idle hidle, List.cons_append]
      cases hn : (names ps).length with
      | zero =>
        rw [hn] at ih
        rw [dropSteps] at ih ⊢
        rw [List.dropWhile_cons_of_pos hidle, ih]
      | succ n =>
        rw [hn] at ih
        rw [dropSteps, hidle, if_pos rfl, ih]

theorem dropWhile_of_inside (h : Inside rel) : rel.dropWhile isIdle = rel := by
  obtain ⟨n, rest, rfl⟩ := List.exists_cons_of_ne_nil h.notEmpty
  rw [List.dropWhile_cons_of_neg]
  rw [(simple_of_isName (h.named n List.mem_cons_self)).notIdle]
  exact Bool.false_ne_true

theorem dropIdleEnd_of_inside (h : Inside rel) : dropIdleEnd rel = rel := by
  have hrev : Inside rel.reverse :=
    ⟨fun he => h.notEmpty (List.reverse_eq_nil_iff.1 he), fun n hn => h.named n (List.mem_reverse.1 hn)⟩
  rw [dropIdleEnd, dropWhile_of_inside hrev, List.reverse_reverse]

theorem dropIdleTail_of_inside (h : Inside rel) : dropIdleTail false rel = rel := by
  cases rel using List.reverseRecOn with
  | nil => exact absurd rfl h.notEmpty
  | append_singleton front last => exact dropIdleTail_concat (simple_of_isName (h.named last (by simp))).notIdle

theorem ofPieces_relative (rel : Location) : ofPieces false rel = ⟨relativePath rel⟩ := by
  rw [ofPieces, if_neg Bool.false_ne_true, String.empty_append, relativePath]

theorem text_of_components (h : p.components = []) : p.text = "" := by
  rw [components_eq, List.append_eq_nil_iff, List.map_eq_nil_iff] at h
  obtain ⟨hstart, hnames⟩ := h
  cases ha : p.isAbsolute with
  | true => simp [ha] at hstart
  | false =>
    have hpieces : p.pieces = Text.cut '/' p.text := by rw [pieces, ha, if_neg Bool.false_ne_true]
    rw [hpieces] at hstart hnames
    obtain ⟨n, rest, hcut⟩ := List.exists_cons_of_ne_nil (Text.cut_ne_nil '/' p.text)
    rw [hcut] at hstart hnames
    have hdot : n ≠ "." := by
      rintro rfl
      simp [ha] at hstart
    have hidle : isIdle n = true := by
      cases hn : isIdle n with
      | true => rfl
      | false =>
        rw [names_cons hn] at hnames
        cases hnames
    obtain rfl : n = "" := by simpa [isIdle, hdot] using hidle
    cases rest with
    | nil => rw [← Text.join_cut '/' p.text, hcut]; rfl
    | cons m rest => rw [isAbsolute_iff_cut.2 ⟨m, rest, hcut⟩] at ha; cases ha

/-- A directory is taken away from the path of its file. -/
theorem below?_join (p : Path) (h : Inside rel) :
    below? p (p.join (relativePath rel)) = some ⟨relativePath rel⟩ := by
  obtain ⟨ps, hp, hj⟩ := p.pieces_join h.plain.relative
  have hnames := names_front hp
  rw [h.cut] at hj
  have hrest : ∀ ps : List String, ofPieces false
      (dropIdleEnd ((dropSteps (names ps).length (ps ++ rel)).dropWhile isIdle)) = ⟨relativePath rel⟩ := by
    intro ps
    rw [dropWhile_dropSteps, dropWhile_of_inside h, dropIdleEnd_of_inside h, ofPieces_relative]
  rw [below?]
  split
  case h_1 hnone =>
    have hself : p.join (relativePath rel) = ⟨relativePath rel⟩ := by
      rw [join, if_neg h.plain.not_isAbsolute, text_of_components hnone]
      simp
    have hpieces : (Path.mk (relativePath rel)).pieces = rel := by
      rw [pieces, h.plain.relative, if_neg Bool.false_ne_true]
      exact h.cut
    rw [hself, h.plain.relative, hpieces, dropIdleTail_of_inside h, ofPieces_relative]
  case h_2 c steps hc =>
    have hprefix : (c :: steps).isPrefixOf (p.join (relativePath rel)).components = true := by
      rw [p.components_join h, hc]
      exact List.isPrefixOf_iff_prefix.2 (List.prefix_append _ _)
    rw [if_pos hprefix, hj]
    rw [components_eq, hnames] at hc
    -- Which piece comes first is told by the first step.
    cases ha : p.isAbsolute with
    | true =>
      rw [ha, if_pos rfl, List.singleton_append] at hc
      obtain ⟨rfl, rfl⟩ := List.cons.inj hc
      simp only [List.length_map, hrest]
    | false =>
      rw [ha, if_neg Bool.false_ne_true] at hc
      by_cases hdot : p.pieces.head? = some "."
      · rw [if_pos hdot, List.singleton_append] at hc
        obtain ⟨rfl, rfl⟩ := List.cons.inj hc
        cases ps with
        | nil => rcases hp with hp | hp <;> simp [hp] at hdot
        | cons q ps =>
          have hq : q = "." := by
            rcases hp with hp | hp <;> rw [hp] at hdot <;> exact Option.some.inj hdot
          subst hq
          simp only [List.cons_append, List.tail_cons, List.length_map, names_idle (p := ".") rfl, hrest]
      · rw [if_neg hdot, List.nil_append] at hc
        obtain ⟨n, ns, hn, rfl, rfl⟩ := List.map_eq_cons_iff.1 hc
        have hlength : (ns.map step).length + 1 = (names ps).length := by
          rw [hn, List.length_map, List.length_cons]
        have hstep : step n = .up ∨ step n = .name n := by
          rw [step]
          split
          · exact .inl rfl
          · exact .inr rfl
        rcases hstep with hstep | hstep <;> rw [hstep] <;> simp only [hlength, hrest]

end LocaleForge.Path
