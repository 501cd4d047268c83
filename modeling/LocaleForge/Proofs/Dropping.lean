import LocaleForge.Proofs.WrittenLines

/-!
Dropping leading lines, seen from the whole text: what is left is the text behind a newline, so nothing of it is
written anew, and dropping in two steps is dropping at once.
-/

namespace LocaleForge.Text

variable {sep : Char} {n : Nat} {cs : List Char}

theorem length_pieces (sep : Char) (cs : List Char) :
    (pieces sep cs).length = cs.count sep + 1 := by
  induction cs with
  | nil => rfl
  | cons c cs ih =>
    by_cases h : c = sep
    · subst h
      rw [pieces_cons_sep, List.length_cons, ih, List.count_cons_self]
    · obtain ⟨p, ps, hp⟩ := List.exists_cons_of_ne_nil (pieces_ne_nil sep cs)
      rw [pieces_cons_ne h hp, List.length_cons, ← List.length_cons (a := p), ← hp, ih,
        List.count_cons_of_ne h]

theorem length_lines (s : String) : (lines s).length = s.toList.count '\n' + 1 := by
  rw [lines, cut, List.length_map, length_pieces]

/-- The first `n` pieces and the separators behind them are a front of the text, which is empty or ends with a
separator. -/
theorem exists_append_glue_drop (h : n ≤ cs.count sep) :
    ∃ front, front ++ glue sep ((pieces sep cs).drop n) = cs ∧ front.count sep = n ∧
      (front = [] ∨ ∃ init, front = init ++ [sep]) := by
  induction n generalizing cs with
  | zero => exact ⟨[], glue_pieces sep cs, rfl, .inl rfl⟩
  | succ n ih =>
    have hmem : sep ∈ cs := List.count_pos_iff.1 (by omega)
    -- Each step takes one piece off, up to the first separator.
    obtain ⟨p, rest, rfl, hp⟩ := List.eq_append_cons_of_mem hmem
    have hcount : (p ++ sep :: rest).count sep = rest.count sep + 1 := by
      rw [List.count_append, List.count_eq_zero_of_not_mem hp, List.count_cons_self, Nat.zero_add]
    obtain ⟨front, hfront, hn, hend⟩ := ih (Nat.le_of_succ_le_succ (hcount ▸ h))
    refine ⟨p ++ sep :: front, ?_, ?_, .inr ?_⟩
    · rw [pieces_append_sep hp, List.drop_succ_cons, List.append_assoc, List.cons_append, hfront]
    · rw [List.count_append, List.count_eq_zero_of_not_mem hp, List.count_cons_self, Nat.zero_add, hn]
    · rcases hend with rfl | ⟨init, rfl⟩
      · exact ⟨p, rfl⟩
      · exact ⟨p ++ sep :: init, by simp⟩

theorem dropLines_of_count_lt {s : String} (h : s.toList.count '\n' < n) : dropLines n s = "" := by
  rw [dropLines, List.drop_eq_nil_of_le (by rw [length_lines]; omega)]
  rfl

theorem exists_append_dropLines {s : String} (h : n ≤ s.toList.count '\n') :
    ∃ front, front ++ dropLines n s = s ∧ front.toList.count '\n' = n ∧ Closed front := by
  obtain ⟨front, hfront, hn, hend⟩ := exists_append_glue_drop h
  have hrest : (dropLines n s).toList = glue '\n' ((pieces '\n' s.toList).drop n) := by
    simp [dropLines, unlines, join, lines, cut, ← List.map_drop, Function.comp_def]
  refine ⟨String.ofList front, String.toList_inj.1 ?_, by rwa [String.toList_ofList], ?_⟩
  · rw [String.toList_append, String.toList_ofList, hrest, hfront]
  · rcases hend with rfl | ⟨init, rfl⟩
    · exact .inl rfl
    · exact .inr ⟨String.ofList init, String.ofList_append⟩

theorem dropLines_dropLines (n m : Nat) (s : String) :
    dropLines m (dropLines n s) = dropLines (n + m) s := by
  by_cases h : n < (lines s).length
  · rw [dropLines, lines_dropLines, if_pos h, List.drop_drop, dropLines]
  · -- Here one empty line stands for no line at all; as a text it is the same.
    rw [length_lines] at h
    have hn : s.toList.count '\n' < n := by omega
    rw [dropLines_of_count_lt hn, dropLines_of_count_lt (Nat.lt_add_right m hn)]
    cases m with
    | zero => rfl
    | succ m => exact dropLines_of_count_lt (Nat.succ_pos m)

/-- Dropping lines cuts a text behind a newline: byte for byte the rest stays, and nothing is left where there are
fewer newlines. So lines can be dropped in steps, also beyond the end. -/
theorem dropLines_cuts (s : String) (n m : Nat) :
    dropLines 0 s = s ∧
    (n ≤ s.toList.count '\n' →
      ∃ front, front ++ dropLines n s = s ∧ front.toList.count '\n' = n ∧ Closed front) ∧
    (s.toList.count '\n' < n → dropLines n s = "") ∧
    dropLines m (dropLines n s) = dropLines (n + m) s :=
  ⟨dropLines_zero s, exists_append_dropLines, dropLines_of_count_lt, dropLines_dropLines n m s⟩

/-- A carriage return and the final newline stay. -/
theorem dropLines_cuts_crlf :
    (1 ≤ "a\r\nb\r\n".toList.count '\n' ∧ "a\r\nb\r\n".toList.count '\n' < 3) ∧
    (∃ front, front ++ dropLines 1 "a\r\nb\r\n" = "a\r\nb\r\n" ∧ front.toList.count '\n' = 1 ∧ Closed front) ∧
    dropLines 1 "a\r\nb\r\n" = "b\r\n" ∧ dropLines 2 "a\r\nb\r\n" = "" ∧
    dropLines 3 "a\r\nb\r\n" = "" := by
  obtain ⟨-, hcut, -, -⟩ := dropLines_cuts "a\r\nb\r\n" 1 1
  obtain ⟨-, -, hpast, -⟩ := dropLines_cuts "a\r\nb\r\n" 3 1
  have hcount : "a\r\nb\r\n".toList.count '\n' = 2 := by decide +kernel
  have hone : 1 ≤ "a\r\nb\r\n".toList.count '\n' := by omega
  have hthree : "a\r\nb\r\n".toList.count '\n' < 3 := by omega
  exact ⟨⟨hone, hthree⟩, hcut hone, by decide +kernel, by decide +kernel, hpast hthree⟩

end LocaleForge.Text
