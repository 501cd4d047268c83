import LocaleForge.Proofs.Identifiers

/-!
The text of an entry can be read back: its lines but the first two and the last one import the locale files, and
each file stands between the marks that the line has around it. So entries for different files differ.
-/

namespace LocaleForge

namespace Text

variable {q r : Char} {mark mark' front inner rest : List Char} {left right text : String}

/-- What stands before the first occurrence of a mark, and what stands behind it. -/
def splitAt? (mark : List Char) : List Char → Option (List Char × List Char)
  | [] => if mark = [] then some ([], []) else none
  | c :: cs =>
    if mark.isPrefixOf (c :: cs) then some ([], (c :: cs).drop mark.length)
    else (splitAt? mark cs).map fun x => (c :: x.1, x.2)

theorem splitAt?_of_notMem (h : q ∉ front) :
    splitAt? (q :: mark) (front ++ (q :: mark ++ rest)) = some (front, rest) := by
  induction front with
  | nil =>
    have hmark : (q :: mark).isPrefixOf (q :: mark ++ rest) = true :=
      List.isPrefixOf_iff_prefix.2 (List.prefix_append _ rest)
    rw [List.nil_append, List.cons_append, splitAt?, ← List.cons_append, if_pos hmark,
      List.drop_left]
  | cons c front ih =>
    simp only [List.mem_cons, not_or] at h
    have hother : (q :: mark).isPrefixOf (c :: (front ++ (q :: mark ++ rest))) = false := by
      simp [List.isPrefixOf, h.1]
    rw [List.cons_append, splitAt?, hother, if_neg Bool.false_ne_true, ih h.2]
    rfl

/-- What stands between the first occurrence of a mark and the next one of another. -/
def between? (left right text : String) : Option String := do
  let (_, rest) ← splitAt? left.toList text.toList
  let (inner, _) ← splitAt? right.toList rest
  return String.ofList inner

theorem between?_eq (hleft : left.toList = q :: mark) (hright : right.toList = r :: mark')
    (hfront : q ∉ front) (hinner : r ∉ inner)
    (htext : text.toList = front ++ (left.toList ++ (inner ++ (right.toList ++ rest)))) :
    between? left right text = some (String.ofList inner) := by
  rw [hleft, hright] at htext
  rw [between?, htext, hleft, hright, splitAt?_of_notMem hfront]
  change (splitAt? (r :: mark') (inner ++ (r :: mark' ++ rest))).bind _ = _
  rw [splitAt?_of_notMem hinner]
  rfl

end Text

namespace Locale

variable {name file base defaultLocale : String} {files : List String}

/-- Neither a newline nor a double quote is in the text. -/
structure Unquoted (s : String) : Prop where
  noNewline : '\n' ∉ s.toList
  noQuote : '"' ∉ s.toList

theorem Unquoted.identifier (h : Unquoted file) : Unquoted (identifier file) where
  noNewline hmem := (mem_identifier hmem).elim (by decide) h.noNewline
  noQuote hmem := (mem_identifier hmem).elim (by decide) h.noQuote

/-! ## One line -/

/-- The file that a line imports. -/
def imported? (line : String) : Option String :=
  Text.between? "\"./" "\";" line

theorem imported?_importLine (hname : Unquoted name) (hfile : Unquoted file) :
    imported? (importLine name file) = some file := by
  have hline : (importLine name file).toList = ("import " ++ name ++ " from ").toList ++
      ("\"./".toList ++ (file.toList ++ ("\";".toList ++ []))) := by
    simp [importLine]
  have hfront : '"' ∉ ("import " ++ name ++ " from ").toList := by
    simpa using hname.noQuote
  rw [imported?, Text.between?_eq rfl rfl hfront hfile.noQuote hline, String.ofList_toList]

theorem newline_notMem_importLine (hname : Unquoted name) (hfile : Unquoted file) :
    '\n' ∉ (importLine name file).toList := by
  simp [importLine, hname.noNewline, hfile.noNewline]

/-! ## All lines -/

theorem lines_entryText (hbase : Unquoted base) (hdefault : Unquoted defaultLocale)
    (hfiles : ∀ file ∈ files, Unquoted file) :
    Text.lines (entryText base defaultLocale files) = entryLines base defaultLocale files := by
  refine Text.lines_unlines (by simp [entryLines]) fun line hline => ?_
  have hident := hbase.identifier.noNewline
  simp only [entryLines, List.mem_append, List.mem_cons, List.mem_map, List.not_mem_nil, or_false] at hline
  rcases hline with (rfl | rfl | ⟨file, hfile, rfl⟩) | rfl
  · exact newline_notMem_importLine hbase.identifier hbase
  · simp [hident]
  · exact newline_notMem_importLine (hfiles file hfile).identifier (hfiles file hfile)
  · simp [hident, hdefault.noNewline]

/-- The lines between the first two and the last one. -/
def middleLines (text : String) : List String :=
  ((Text.lines text).drop 2).dropLast

theorem middleLines_entryText (hbase : Unquoted base) (hdefault : Unquoted defaultLocale)
    (hfiles : ∀ file ∈ files, Unquoted file) : middleLines (entryText base defaultLocale files) =
      files.map fun file => importLine (identifier file) file := by
  rw [middleLines, lines_entryText hbase hdefault hfiles]
  exact List.dropLast_concat

theorem imported_middleLines (hbase : Unquoted base) (hdefault : Unquoted defaultLocale)
    (hfiles : ∀ file ∈ files, Unquoted file) :
    (middleLines (entryText base defaultLocale files)).map imported? = files.map some := by
  rw [middleLines_entryText hbase hdefault hfiles, List.map_map]
  exact List.map_congr_left fun file hfile =>
    imported?_importLine (hfiles file hfile).identifier (hfiles file hfile)

theorem getLast?_entryText (base defaultLocale : String) (files : List String) :
    (entryText base defaultLocale files).toList.getLast? = some ';' := by
  have hend : (identifier base ++ ".locale('" ++ defaultLocale ++ "');").toList =
      (identifier base ++ ".locale('" ++ defaultLocale ++ "')").toList ++ [';'] := by
    simp
  change (Text.join '\n' (_ ++ [_])).toList.getLast? = some ';'
  rw [Text.toList_join_concat (List.cons_ne_nil _ _), hend, ← List.cons_append, ← List.append_assoc,
    List.getLast?_concat]

/-- The first two lines of an entry import and export the base module, and the last one sets the default locale.
From the lines between, the locale files can be read in their order, so entries for other files are
other texts. -/
theorem entryText_reads_back (hbase : Unquoted base) (hdefault : Unquoted defaultLocale)
    (hfiles : ∀ file ∈ files, Unquoted file) :
    let text := entryText base defaultLocale files
    (Text.lines text).length = files.length + 3 ∧ text.toList.getLast? ≠ some '\n' ∧
    (Text.lines text)[0]? = some (importLine (identifier base) base) ∧
    (Text.lines text)[1]? = some ("export default " ++ identifier base ++ ";") ∧
    (Text.lines text).getLast? = some (identifier base ++ ".locale('" ++ defaultLocale ++ "');") ∧
    middleLines text = files.map (fun file => importLine (identifier file) file) ∧
    (middleLines text).map imported? = files.map some ∧
    ∀ base' defaultLocale' files', Unquoted base' → Unquoted defaultLocale' →
      (∀ file ∈ files', Unquoted file) → entryText base' defaultLocale' files' = text → files' = files := by
  intro text
  have hlines : Text.lines text = entryLines base defaultLocale files :=
    lines_entryText hbase hdefault hfiles
  refine ⟨?_, ?_, ?_, ?_, ?_, middleLines_entryText hbase hdefault hfiles,
    imported_middleLines hbase hdefault hfiles, ?_⟩
  · simp [hlines, entryLines]
  · rw [getLast?_entryText]
    decide
  · rw [hlines]
    rfl
  · rw [hlines]
    rfl
  · rw [hlines, entryLines]
    exact List.getLast?_concat
  · intro base' defaultLocale' files' hbase' hdefault' hfiles' hsame
    have hread := imported_middleLines hbase' hdefault' hfiles'
    rw [hsame, imported_middleLines hbase hdefault hfiles] at hread
    exact (List.map_injective_iff.2 (fun _ _ => Option.some.inj) hread).symm

theorem entryText_reads_back_small :
    Unquoted "m" ∧ Unquoted "en" ∧ (∀ file ∈ ["l/de-at.js"], Unquoted file) ∧
      (Text.lines (entryText "m" "en" ["l/de-at.js"])).length = 4 ∧
      middleLines (entryText "m" "en" ["l/de-at.js"]) = ["import de_at from \"./l/de-at.js\";"] ∧
      (middleLines (entryText "m" "en" ["l/de-at.js"])).map imported? = [some "l/de-at.js"] := by
  have hbase : Unquoted "m" := ⟨by decide, by decide⟩
  have hdefault : Unquoted "en" := ⟨by decide, by decide⟩
  have hfiles : ∀ file ∈ ["l/de-at.js"], Unquoted file := by
    intro file hfile
    rw [List.mem_singleton.1 hfile]
    exact ⟨by decide, by decide⟩
  obtain ⟨hlength, -, -, -, -, hmiddle, hread, -⟩ := entryText_reads_back hbase hdefault hfiles
  exact ⟨hbase, hdefault, hfiles, hlength, hmiddle.trans (by decide +kernel), hread⟩

end Locale

end LocaleForge
