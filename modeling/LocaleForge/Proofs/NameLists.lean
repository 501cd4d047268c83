import LocaleForge.Program
import LocaleForge.Proofs.Hoisting
import LocaleForge.Proofs.StageRuns

/-!
Lists of names with commas between them. Each piece of a list is read by itself, so lists can be put one
behind the other. Names that have been read are in the form in which writing them as a list and reading it
changes nothing; the banner of a custom build shows such a list.
-/

namespace LocaleForge

namespace Locale

/-- A name as it is read from a list: without a comma, and without blank characters at its ends. -/
structure Listed (name : String) : Prop where
  nonempty : name ≠ ""
  comma_notMem : ',' ∉ name.toList
  trimmed : Text.trim name = name

instance (name : String) : Decidable (Listed name) :=
  decidable_of_iff (name ≠ "" ∧ ',' ∉ name.toList ∧ Text.trim name = name)
    ⟨fun ⟨hne, hcomma, htrim⟩ => ⟨hne, hcomma, htrim⟩,
      fun h => ⟨h.nonempty, h.comma_notMem, h.trimmed⟩⟩

variable {raw piece name : String} {names : List String}

theorem parseList_append (a b : String) : parseList (a ++ "," ++ b) = parseList a ++ parseList b := by
  have hcut : Text.cut ',' (a ++ "," ++ b) = Text.cut ',' a ++ Text.cut ',' b :=
    Text.cut_eq_append (by simp)
  rw [parseList, hcut, List.map_append, List.filter_append, parseList, parseList]

/-- A piece stands for its trimmed form; a blank one stands for nothing. -/
theorem parseList_of_comma_notMem (h : ',' ∉ piece.toList) :
    parseList piece = if Text.trim piece = "" then [] else [Text.trim piece] := by
  rw [parseList, Text.cut_of_notMem h, List.map_singleton]
  split
  case isTrue hblank =>
    rw [hblank]
    rfl
  case isFalse hne => simp [hne]

theorem listed_of_mem_parseList (h : name ∈ parseList raw) : Listed name := by
  simp only [parseList, List.mem_filter, List.mem_map, Bool.not_eq_true', String.isEmpty_eq_false_iff] at h
  obtain ⟨⟨piece, hpiece, rfl⟩, hne⟩ := h
  exact ⟨hne, Text.notMem_trim (Text.sep_notMem_of_mem_cut hpiece), Text.trim_trim piece⟩

theorem Listed.parseList_eq (h : Listed name) : parseList name = [name] := by
  rw [parseList_of_comma_notMem h.comma_notMem, h.trimmed, if_neg h.nonempty]

theorem parseList_intercalate (h : ∀ name ∈ names, Listed name) :
    parseList (String.intercalate "," names) = names := by
  induction names with
  | nil =>
    -- No name at all is written as a text with one blank piece, which is skipped.
    rw [String.intercalate_nil]
    rfl
  | cons name names ih =>
    obtain ⟨hname, hnames⟩ := List.forall_mem_cons.1 h
    cases names with
    | nil => rw [String.intercalate_singleton, hname.parseList_eq]
    | cons next names =>
      rw [String.intercalate_cons_cons, parseList_append, hname.parseList_eq, ih hnames,
        List.singleton_append]

theorem parseList_intercalate_iff :
    parseList (String.intercalate "," names) = names ↔ ∀ name ∈ names, Listed name := by
  refine ⟨fun h name hname => ?_, parseList_intercalate⟩
  rw [← h] at hname
  exact listed_of_mem_parseList hname

end Locale

/-- A custom build first of all shows the names that were read. -/
theorem Program.console_custom (c : Config) (ctx : Context) (config : Option Path) (raw : String)
    (s : BuildState) :
    s.console ++
      [.banner "custom" c.project.name (some (String.intercalate "," (Locale.parseList raw)))] <+:
      ((perform c ctx (.custom config raw)).run.run s).2.console := by
  let names := Locale.parseList raw
  let started := s.told (.banner "custom" c.project.name (some (String.intercalate "," names)))
  have carries := (Pipeline.corresponds_shownOn ctx started.console).carries
  have hrest : (do let _ ← ctx.custom names : Build Unit).Respects
      (Pipeline.ShownOn started.console) fun _ => True :=
    carries.composes.bind (carries.custom ctx.settings.allowsCustom_true names) fun _ _ =>
      carries.composes.pure trivial
  exact (hrest started started ⟨rfl, List.prefix_rfl⟩).2.1.2

namespace Locale

/-- Names with commas between them are read back exactly when each is in the form that lists hold. Lists are
read piece by piece, and all names that are read are in that form. So the list in the banner of a custom
build stands for the names that were asked for, however they were written. -/
theorem parseList_reads_back :
    (∀ names : List String,
      parseList (String.intercalate "," names) = names ↔ ∀ name ∈ names, Listed name) ∧
    (∀ a b : String, parseList (a ++ "," ++ b) = parseList a ++ parseList b) ∧
    (∀ piece : String, ',' ∉ piece.toList →
      parseList piece = if Text.trim piece = "" then [] else [Text.trim piece]) ∧
    ∀ raw : String,
      let shown := String.intercalate "," (parseList raw)
      (∀ name ∈ parseList raw, Listed name) ∧ parseList shown = parseList raw ∧
      ∀ (c : Config) (ctx : Context) (config : Option Path) (s : BuildState),
        s.console ++ [.banner "custom" c.project.name (some shown)] <+:
          ((Program.perform c ctx (.custom config raw)).run.run s).2.console := by
  refine ⟨fun _ => parseList_intercalate_iff, parseList_append, fun _ => parseList_of_comma_notMem,
    fun raw => ?_⟩
  have hlisted : ∀ name ∈ parseList raw, Listed name := fun _ => listed_of_mem_parseList
  exact ⟨hlisted, parseList_intercalate hlisted, fun c ctx config => Program.console_custom c ctx config raw⟩

/-- One name has a blank character inside, another is a space of no width, which is not blank. -/
def spacedNames : List String :=
  ["fr", "de\u00a0at", "\u200b"]

theorem parseList_reads_back_spaced :
    let raw := "\u3000fr,, de\u00a0at\u0085,\u2028,\t\u200b"
    let run := (Program.perform {} (.small .small "") (.custom none raw)).run.run (.fresh .small)
    (∀ name ∈ spacedNames, Listed name) ∧
    parseList (String.intercalate "," spacedNames) = spacedNames ∧
    ',' ∉ "\u2003sr\r\n".toList ∧ parseList (raw ++ "," ++ "\u2003sr\r\n") = spacedNames ++ ["sr"] ∧
    [.banner "custom" "moment" (some "fr,de\u00a0at,\u200b")] <+: run.2.console := by
  intro raw run
  obtain ⟨hreads, happend, hpiece, hraw⟩ := parseList_reads_back
  obtain ⟨-, -, hbanner⟩ := hraw raw
  have hlisted : ∀ name ∈ spacedNames, Listed name := by decide +kernel
  have hnames : parseList raw = spacedNames := by decide +kernel
  have hshown : String.intercalate "," spacedNames = "fr,de\u00a0at,\u200b" := by decide +kernel
  have hcomma : ',' ∉ "\u2003sr\r\n".toList := by decide +kernel
  have htrim : Text.trim "\u2003sr\r\n" = "sr" := by decide +kernel
  refine ⟨hlisted, (hreads spacedNames).2 hlisted, hcomma, ?_, ?_⟩
  · rw [happend, hnames, hpiece _ hcomma, htrim]
    rfl
  · rw [← hshown, ← hnames]
    exact hbanner {} (.small .small "") none (.fresh .small)

end Locale

end LocaleForge
