import LocaleForge.Disk.Expand
import LocaleForge.Proofs.Joining

/-!
The files that are found below a directory: their relative paths go down only.
-/

namespace LocaleForge.Disk

/-- Files that are found below a directory lie at locations below it. -/
theorem mem_filesBelow {d : Disk} {loc : Location} {file : String} (h : file ∈ d.filesBelow loc) :
    ∃ rel e, d.get? (loc ++ rel) = some e ∧ e.isFile = true ∧ file = relativePath rel ∧
      Text.cut '/' file = rel ∧ ∀ n ∈ rel, IsName n := by
  obtain ⟨⟨rel, e⟩, hmem, rfl⟩ := List.mem_map.1 h
  obtain ⟨hbelow, hfile⟩ := List.mem_filter.1 hmem
  obtain ⟨hne, hget⟩ := mem_below_iff.1 hbelow
  have hnames : ∀ n ∈ rel, IsName n := fun n hn => isName_of_get? hget (List.mem_append_right loc hn)
  exact ⟨rel, e, hget, hfile, rfl, Text.cut_join hne fun n hn => (hnames n hn).2.2.2, hnames⟩

theorem mem_expand {d : Disk} {root : Path} {pattern : String} {files : List String}
    (h : d.expand root pattern = .ok files) {file : String} (hf : file ∈ files) :
    ∃ tokens rel, Glob.parse pattern = .ok tokens ∧ Glob.accepts tokens file = true ∧
      file = relativePath rel ∧ Text.cut '/' file = rel ∧ ∀ n ∈ rel, IsName n := by
  rw [expand] at h
  split at h
  case h_1 loc _ _ =>
    cases ht : Glob.parse pattern with
    | error e =>
      rw [ht] at h
      cases h
    | ok tokens =>
      rw [ht] at h
      cases h
      obtain ⟨hmem, haccepts⟩ := List.mem_filter.1 hf
      obtain ⟨rel, e, -, -, hrel, hcut, hnames⟩ := mem_filesBelow hmem
      exact ⟨tokens, rel, rfl, haccepts, hrel, hcut, hnames⟩
  case h_2 =>
    cases h
    cases hf

theorem plain_of_expand {d : Disk} {root : Path} {pattern : String} {files : List String}
    (h : d.expand root pattern = .ok files) {file : String} (hf : file ∈ files) :
    Path.Plain file := by
  obtain ⟨tokens, rel, -, -, -, hcut, hnames⟩ := mem_expand h hf
  constructor
  · refine Bool.eq_false_iff.2 fun ha => ?_
    have hempty := Path.empty_mem_cut_of_isAbsolute ha
    simp only [hcut] at hempty
    exact (hnames _ hempty).1 rfl
  · rw [hcut]
    exact fun hup => (hnames _ hup).2.2.1 rfl

end LocaleForge.Disk
