import LocaleForge.Relocation
import Mathlib.Data.List.DropRight
import Mathlib.Logic.Function.Iterate

/-!
Relocation told line by line: which lines go to the top, which are dropped and which stay. The lines of
a relocated text are again of this form, so it is known what relocating it another time does.
-/

namespace LocaleForge

namespace Text

variable {cs : List Char} {c : Char}

theorem toList_trim (s : String) : (trim s).toList = trimChars s.toList :=
  String.toList_ofList

theorem mem_of_mem_trimChars (h : c ∈ trimChars cs) : c ∈ cs :=
  (List.dropWhile_suffix isBlank).subset ((List.rdropWhile_prefix isBlank _).subset h)

theorem dropWhile_trimChars (cs : List Char) : (trimChars cs).dropWhile isBlank = trimChars cs := by
  cases h : trimChars cs with
  | nil => rfl
  | cons c rest =>
    obtain ⟨more, hmore⟩ := List.rdropWhile_prefix isBlank (cs.dropWhile isBlank)
    have hhead := List.head?_dropWhile_not isBlank cs
    rw [← hmore, show List.rdropWhile isBlank (cs.dropWhile isBlank) = c :: rest from h] at hhead
    rw [List.dropWhile_cons_of_neg (by simpa using hhead)]

theorem trimChars_trimChars (cs : List Char) : trimChars (trimChars cs) = trimChars cs := by
  rw [trimChars, dropWhile_trimChars]
  exact List.rdropWhile_idempotent isBlank _

@[simp]
theorem trim_trim (s : String) : trim (trim s) = trim s := by
  rw [trim, toList_trim, trimChars_trimChars, trim]

theorem notMem_trim {s : String} (h : c ∉ s.toList) : c ∉ (trim s).toList := by
  rw [toList_trim]
  exact fun hc => h (mem_of_mem_trimChars hc)

end Text

namespace Relocation

/-! ## Documentation lines -/

@[simp]
theorem isDoc_trim (l : String) : isDoc (Text.trim l) = isDoc l := by
  rw [isDoc, isDoc, Text.toList_trim, Text.trimChars_trimChars]

@[simp]
theorem isDoc_empty : isDoc "" = false := rfl

theorem isDoc_of_prefix {l : String} (h : "//!".toList <+: l.toList) : isDoc l := by
  obtain ⟨rest, hrest⟩ := h
  rw [isDoc, List.isPrefixOf_iff_prefix, Text.trimChars, ← hrest]
  change ['/', '/', '!'] <+: Text.dropEndWhile Text.isBlank (['/', '/', '!'] ++ rest)
  rw [Text.dropEndWhile, List.reverse_append, List.dropWhile_append]
  split
  · exact List.prefix_rfl
  · rw [List.reverse_append, List.reverse_reverse]
    exact List.prefix_append _ _

/-- The documentation lines, trimmed. -/
def docLines (ls : List String) : List String :=
  (ls.filter isDoc).map Text.trim

/-- The lines that are no documentation. -/
def codeLines (ls : List String) : List String :=
  ls.filter (!isDoc ·)

variable (mode : CommentMode) (marker : String) (ls : List String)

/-- Line `i` is a documentation line that equals the marker, in the mode that heeds the marker. -/
def marks (i : Nat) : Bool :=
  mode = .mainOnly && ls[i]?.any fun l => isDoc l && Text.trim l = marker

/-- Line `i` opens a skip: it is a marker, and the line just before it does not open one. -/
def opens : Nat → Bool
  | 0 => marks mode marker ls 0
  | i + 1 => marks mode marker ls (i + 1) && !opens i

/-- The line just before line `i` opens a skip. -/
def follows : Nat → Bool
  | 0 => false
  | i + 1 => opens mode marker ls i

/-- The documentation lines, trimmed, that neither open a skip nor directly follow a line that opens
one. -/
def hoistedLines : List String :=
  (ls.zipIdx.filter fun x =>
    isDoc x.1 && !opens mode marker ls x.2 && !follows mode marker ls x.2).map fun x => Text.trim x.1

variable {mode marker ls}

theorem follows_succ (i : Nat) : follows mode marker ls (i + 1) = opens mode marker ls i :=
  rfl

theorem opens_eq (i : Nat) :
    opens mode marker ls i = (marks mode marker ls i && !follows mode marker ls i) := by
  cases i with
  | zero => rw [opens, follows, Bool.not_false, Bool.and_true]
  | succ i => rw [opens, follows]

/-- The marker, in the mode that heeds it. -/
def heeded : CommentMode → String → Option String
  | .mainOnly, marker => some marker
  | _, _ => none

theorem marks_append (front rest : List String) {l : String} (hl : isDoc l) :
    marks mode marker (front ++ l :: rest) front.length = decide (heeded mode marker = some (Text.trim l)) := by
  cases mode <;> simp [marks, heeded, hl, eq_comm]

/-- The flag that the fates carry along says whether the line just before opens a skip. -/
theorem hoisted_fates (front rest : List String) :
    (fates (heeded mode marker) (follows mode marker (front ++ rest) front.length) rest).filterMap
        Fate.hoisted? =
      ((rest.zipIdx front.length).filter fun x => isDoc x.1 &&
        !opens mode marker (front ++ rest) x.2 && !follows mode marker (front ++ rest) x.2).map
        fun x => Text.trim x.1 := by
  induction rest generalizing front with
  | nil => rfl
  | cons l rest ih =>
    -- The other lines are read with this one in front of them.
    have hrest := ih (front ++ [l])
    rw [List.append_assoc, List.singleton_append, List.length_append, List.length_singleton,
      follows_succ] at hrest
    have hopens := @opens_eq mode marker (front ++ l :: rest) front.length
    rw [fates, List.zipIdx_cons]
    by_cases hl : isDoc l
    case neg =>
      have hmarks : marks mode marker (front ++ l :: rest) front.length = false := by simp [marks, hl]
      rw [hopens, hmarks] at hrest
      simpa [hl, Fate.hoisted?, List.filterMap_cons] using hrest
    case pos =>
      rw [marks_append front rest hl] at hopens
      cases hf : follows mode marker (front ++ l :: rest) front.length with
      | true =>
        rw [hopens, hf] at hrest
        simpa [hl, hf, Fate.hoisted?, List.filterMap_cons] using hrest
      | false =>
        rw [hf] at hopens
        by_cases hm : heeded mode marker = some (Text.trim l)
        · simp only [hopens, hm] at hrest
          simpa [hl, hf, hm, hopens, Fate.hoisted?, List.filterMap_cons] using hrest
        · simp only [hopens, hm] at hrest
          simpa [hl, hf, hm, hopens, Fate.hoisted?] using hrest

/-- Where no documentation line is a marker, all of them are hoisted. -/
theorem hoistedLines_of_unmarked (h : ∀ l ∈ ls, isDoc l → heeded mode marker ≠ some (Text.trim l)) :
    hoistedLines mode marker ls = docLines ls := by
  have hmarks : ∀ i, marks mode marker ls i = false := by
    intro i
    rw [Bool.eq_false_iff]
    intro hi
    simp only [marks, Bool.and_eq_true, decide_eq_true_eq, Option.any_eq_true] at hi
    obtain ⟨rfl, l, hl, hdoc, hm⟩ := hi
    exact h l (List.mem_of_getElem? hl) hdoc (congrArg some hm.symm)
  have hopens : ∀ i, opens mode marker ls i = false := fun i => by rw [opens_eq, hmarks, Bool.false_and]
  have hfollows : ∀ i, follows mode marker ls i = false
    | 0 => rfl
    | i + 1 => hopens i
  calc hoistedLines mode marker ls
      = (ls.zipIdx.filter (isDoc ∘ Prod.fst)).map (Text.trim ∘ Prod.fst) := by
        simp [hoistedLines, hopens, hfollows, Function.comp_def]
    _ = ((ls.zipIdx.map Prod.fst).filter isDoc).map Text.trim := by rw [List.filter_map, List.map_map]
    _ = docLines ls := by rw [List.zipIdx_map_fst, docLines]

theorem hoistedLines_full : hoistedLines .full marker ls = docLines ls :=
  hoistedLines_of_unmarked fun _ _ _ => nofun

theorem mem_hoistedLines {l : String} (h : l ∈ hoistedLines mode marker ls) :
    isDoc l ∧ (∃ l' ∈ ls, l = Text.trim l') ∧ heeded mode marker ≠ some l := by
  simp only [hoistedLines, List.mem_map, List.mem_filter, Bool.and_eq_true, Bool.not_eq_true',
    Prod.exists, List.mem_zipIdx_iff_getElem?] at h
  obtain ⟨l', i, ⟨hl', ⟨hdoc, hopens⟩, hfollows⟩, rfl⟩ := h
  refine ⟨by rwa [isDoc_trim], ⟨l', List.mem_of_getElem? hl', rfl⟩, fun hm => ?_⟩
  rw [opens_eq, hfollows, Bool.not_false, Bool.and_true] at hopens
  cases mode with
  | keep => cases hm
  | full => cases hm
  | mainOnly => simp_all [marks, heeded]

/-! ## Relocated texts -/

@[simp]
theorem docLines_append (ls ls' : List String) : docLines (ls ++ ls') = docLines ls ++ docLines ls' := by
  simp [docLines]

@[simp]
theorem codeLines_append (ls ls' : List String) :
    codeLines (ls ++ ls') = codeLines ls ++ codeLines ls' := by
  simp [codeLines]

@[simp]
theorem docLines_codeLines : docLines (codeLines ls) = [] := by
  simp [docLines, codeLines, List.filter_filter]

@[simp]
theorem codeLines_codeLines : codeLines (codeLines ls) = codeLines ls := by
  simp [codeLines, List.filter_filter]

@[simp]
theorem docLines_replicate_empty (n : Nat) : docLines (List.replicate n "") = [] := by
  simp [docLines]

@[simp]
theorem codeLines_replicate_empty (n : Nat) :
    codeLines (List.replicate n "") = List.replicate n "" := by
  simp [codeLines]

@[simp]
theorem docLines_hoistedLines :
    docLines (hoistedLines mode marker ls) = hoistedLines mode marker ls := by
  rw [docLines, List.filter_eq_self.2 fun l hl => (mem_hoistedLines hl).1]
  refine (List.map_congr_left fun l hl => ?_).trans (List.map_id _)
  obtain ⟨-, ⟨l', -, rfl⟩, -⟩ := mem_hoistedLines hl
  rw [Text.trim_trim, id]

@[simp]
theorem codeLines_hoistedLines : codeLines (hoistedLines mode marker ls) = [] := by
  refine List.filter_eq_nil_iff.2 fun l hl => ?_
  simp [(mem_hoistedLines hl).1]

/-- The lines of a relocated text, with `n` empty ones between the documentation and the rest. -/
def layers (mode : CommentMode) (marker : String) (ls : List String) (n : Nat) : List String :=
  hoistedLines mode marker ls ++ (List.replicate n "" ++ codeLines ls)

theorem docLines_layers (n : Nat) :
    docLines (layers mode marker ls n) = hoistedLines mode marker ls := by
  simp [layers]

theorem codeLines_layers (n : Nat) :
    codeLines (layers mode marker ls n) = List.replicate n "" ++ codeLines ls := by
  simp [layers]

theorem newline_notMem_layers {text l : String} {n : Nat}
    (h : l ∈ layers mode marker (Text.lines text) n) : '\n' ∉ l.toList := by
  simp only [layers, List.mem_append, List.mem_replicate, codeLines, List.mem_filter] at h
  rcases h with h | ⟨-, rfl⟩ | ⟨h, -⟩
  · obtain ⟨-, ⟨l', hl', rfl⟩, -⟩ := mem_hoistedLines h
    exact Text.notMem_trim (Text.sep_notMem_of_mem_cut hl')
  · exact List.not_mem_nil
  · exact Text.sep_notMem_of_mem_cut h

theorem lines_unlines_layers (text : String) (n : Nat) :
    Text.lines (Text.unlines (layers mode marker (Text.lines text) (n + 1))) =
      layers mode marker (Text.lines text) (n + 1) :=
  Text.lines_unlines (by simp [layers]) fun _ => newline_notMem_layers

end Relocation

open Relocation

variable {mode mode' : CommentMode} {marker text : String}

theorem relocate_eq_fates (hmode : mode ≠ .keep) :
    relocate mode marker text =
      Text.unlines (assemble (fates (heeded mode marker) false (Text.lines text))) := by
  cases mode with
  | keep => exact absurd rfl hmode
  | full => rfl
  | mainOnly => rfl

theorem relocate_eq_layers (hmode : mode ≠ .keep) :
    relocate mode marker text = Text.unlines (layers mode marker (Text.lines text) 1) := by
  have hhoisted := @hoisted_fates mode marker [] (Text.lines text)
  rw [List.nil_append, List.length_nil, follows] at hhoisted
  rw [relocate_eq_fates hmode, assemble, filterMap_kept?_fates, hhoisted]
  rfl

theorem lines_relocate (hmode : mode ≠ .keep) :
    Text.lines (relocate mode marker text) = layers mode marker (Text.lines text) 1 := by
  rw [relocate_eq_layers hmode, lines_unlines_layers]

/-- Relocating a relocated text puts one more empty line below the documentation. -/
theorem relocate_layers (hmode' : mode' ≠ .keep)
    (h : ∀ l ∈ hoistedLines mode marker (Text.lines text), heeded mode' marker ≠ some l) (n : Nat) :
    relocate mode' marker (Text.unlines (layers mode marker (Text.lines text) (n + 1))) =
      Text.unlines (layers mode marker (Text.lines text) (n + 2)) := by
  have hunmarked : ∀ l ∈ layers mode marker (Text.lines text) (n + 1), isDoc l →
      heeded mode' marker ≠ some (Text.trim l) := by
    intro l hl hdoc
    refine h _ ?_
    rw [← docLines_layers (n + 1)]
    exact List.mem_map_of_mem (List.mem_filter.2 ⟨hl, hdoc⟩)
  rw [relocate_eq_layers hmode', lines_unlines_layers, layers, hoistedLines_of_unmarked hunmarked,
    docLines_layers, codeLines_layers]
  rw [← List.append_assoc (List.replicate 1 ""), List.replicate_append_replicate, Nat.add_comm 1]
  rfl

theorem iterate_relocate (hmode : mode ≠ .keep) (hmode' : mode' ≠ .keep)
    (h : ∀ l ∈ hoistedLines mode marker (Text.lines text), heeded mode' marker ≠ some l) (n : Nat) :
    (relocate mode' marker)^[n] (relocate mode marker text) =
      Text.unlines (layers mode marker (Text.lines text) (n + 1)) := by
  induction n with
  | zero => exact relocate_eq_layers hmode
  | succ n ih => rw [Function.iterate_succ_apply', ih, relocate_layers hmode' h]

/-! ## Main results -/

/-- Every documentation line that no skip takes goes to the top, an empty line follows, and all other
lines stay as they are. So no mode loses a line of code, and in the mode that heeds the marker none is
left. -/
theorem relocate_by_lines (mode : CommentMode) (marker text : String) :
    (mode ≠ .keep → relocate mode marker text = Text.unlines
      (hoistedLines mode marker (Text.lines text) ++ "" :: codeLines (Text.lines text))) ∧
    codeLines (Text.lines (relocate mode marker text)) =
      (if mode = .keep then [] else [""]) ++ codeLines (Text.lines text) ∧
    (mode = .mainOnly → "//!".toList <+: marker.toList →
      marker ∉ Text.lines (relocate mode marker text)) := by
  refine ⟨relocate_eq_layers, ?_, ?_⟩
  · by_cases hmode : mode = .keep
    · subst hmode
      rfl
    · rw [lines_relocate hmode, codeLines_layers, if_neg hmode]
      rfl
  · rintro rfl hstart hmem
    have hdoc := isDoc_of_prefix hstart
    rw [lines_relocate (by decide)] at hmem
    simp only [layers, List.mem_append, List.mem_replicate, codeLines, List.mem_filter] at hmem
    rcases hmem with hmem | ⟨-, rfl⟩ | ⟨-, hcode⟩
    · exact (mem_hoistedLines hmem).2.2 rfl
    · cases hdoc
    · rw [hdoc] at hcode
      cases hcode

/-- Two markers in a row, and one with code behind it. -/
def markedText : String :=
  "//! l\n  //! l\n//! a\nx\n//! l\ny"

theorem relocate_by_lines_small :
    CommentMode.mainOnly ≠ .keep ∧ "//!".toList <+: "//! l".toList ∧
    relocate .mainOnly "//! l" markedText = "//! a\n\nx\ny" ∧
    "//! l" ∉ Text.lines (relocate .mainOnly "//! l" markedText) := by
  obtain ⟨hlines, -, hnone⟩ := relocate_by_lines .mainOnly "//! l" markedText
  have hstart : "//!".toList <+: "//! l".toList := by decide
  exact ⟨by decide, hstart, (hlines (by decide)).trans (by decide +kernel), hnone rfl hstart⟩

/-- Relocating again and again in the full mode only adds one empty line each time. So does the mode that
heeds the marker after its first time, in which it has dropped all that it drops. -/
theorem relocate_repeatedly (marker text : String) (n : Nat) :
    (relocate .full marker)^[n + 1] text = Text.unlines
      (docLines (Text.lines text) ++ List.replicate (n + 1) "" ++ codeLines (Text.lines text)) ∧
    (relocate .mainOnly marker)^[n + 1] text = Text.unlines
      (hoistedLines .mainOnly marker (Text.lines text) ++ List.replicate (n + 1) "" ++
        codeLines (Text.lines text)) ∧
    relocate .mainOnly marker ((relocate .mainOnly marker)^[n + 1] text) =
      relocate .full marker ((relocate .mainOnly marker)^[n + 1] text) := by
  have hfull : ∀ l : String, heeded .full marker ≠ some l := fun _ => nofun
  have hdropped : ∀ l ∈ hoistedLines .mainOnly marker (Text.lines text), heeded .mainOnly marker ≠ some l :=
    fun l hl => (mem_hoistedLines hl).2.2
  have hmain := iterate_relocate (by decide) (by decide) hdropped n
  rw [Function.iterate_succ_apply, Function.iterate_succ_apply, hmain]
  refine ⟨?_, ?_, ?_⟩
  · rw [iterate_relocate (by decide) (by decide) fun l _ => hfull l, layers, hoistedLines_full,
      List.append_assoc]
  · rw [layers, List.append_assoc]
  · rw [relocate_layers (by decide) hdropped, relocate_layers (by decide) fun l _ => hfull l]

end LocaleForge
