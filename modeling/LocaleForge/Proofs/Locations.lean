import LocaleForge.Proofs.Inputs

/-!
Files below a directory by their relative locations, and what a pattern finds as such locations.
-/

namespace LocaleForge.Disk

/-- A location of a file relative to a directory. -/
structure Inside (rel : Location) : Prop where
  notEmpty : rel ≠ []
  named : ∀ n ∈ rel, IsName n

variable {d X Y : Disk} {rel loc l : Location} {root p : Path} {pattern file name : String}
  {files : List String} {tokens : List Glob.Token}

theorem Inside.cut (h : Inside rel) : Text.cut '/' (relativePath rel) = rel :=
  Text.cut_join h.notEmpty fun n hn => (h.named n hn).2.2.2

theorem Inside.names (h : Inside rel) : Path.names (Text.cut '/' (relativePath rel)) = rel := by
  rw [h.cut, names_of_isName h.named]

theorem Inside.plain (h : Inside rel) : Path.Plain (relativePath rel) where
  relative := by
    refine Bool.eq_false_iff.2 fun ha => ?_
    have hempty := Path.empty_mem_cut_of_isAbsolute ha
    rw [h.cut] at hempty
    exact (h.named _ hempty).1 rfl
  noUp := by
    rw [h.cut]
    exact fun hup => (h.named _ hup).2.2.1 rfl

/-- A relative path begins with the name of a directory just if its location lies there. -/
theorem Inside.front_iff (h : Inside rel) (hname : Path.Simple name) :
    (name ++ "/").toList <+: (relativePath rel).toList ↔ isBelow [name] rel = true := by
  rw [isBelow_iff]
  constructor
  · rintro ⟨rest, hrest⟩
    have hfile : relativePath rel = name ++ "/" ++ String.ofList rest := by
      apply String.toList_injective
      simp [← hrest]
    have hcut := h.cut
    rw [hfile, Path.cut_append_slash, hname.cut] at hcut
    rw [← hcut]
    refine ⟨List.prefix_append _ _, fun he => Text.cut_ne_nil '/' (String.ofList rest) ?_⟩
    exact List.append_cancel_left (he.trans (List.append_nil [name]).symm)
  · rintro ⟨⟨rest, rfl⟩, hne⟩
    have hrest : rest.map String.toList ≠ [] := by
      rw [ne_eq, List.map_eq_nil_iff]
      rintro rfl
      exact hne rfl
    refine ⟨Text.glue '/' (rest.map String.toList), ?_⟩
    rw [relativePath, Text.join, String.toList_ofList, List.cons_append, List.nil_append, List.map_cons,
      Text.glue_cons '/' _ hrest, String.toList_append, List.append_assoc]
    rfl

theorem inside_of_get? {e : Entry} (h : d.get? (loc ++ rel) = some e) (hne : rel ≠ []) : Inside rel :=
  ⟨hne, fun _ hn => isName_of_get? h (List.mem_append_right loc hn)⟩

theorem isSome_content?_iff : (d.content? loc).isSome = true ↔
    ∃ e, d.get? loc = some e ∧ e.isFile = true := by
  rw [content?]
  split
  case h_1 content x hg =>
    constructor
    · intro _
      exact ⟨_, hg, rfl⟩
    · intro _
      rfl
  case h_2 hnot =>
    constructor
    · intro h
      cases h
    · rintro ⟨e, hg, hfile⟩
      cases e with
      | file content x => exact absurd hg (hnot content x)
      | directory => cases hfile
      | link target => cases hfile

/-- What a pattern finds, by location: files below the directory, in their order. If the directory is
there, these are all that match. -/
theorem expand_locations (hroot : ∀ {l b}, d.find true root = .ok ⟨l, some .directory, b⟩ → l = loc)
    (h : d.expand root pattern = .ok files) : ∃ rels : List Location,
      files = rels.map relativePath ∧ rels.Pairwise (· < ·) ∧
      (∀ rel ∈ rels, Inside rel ∧ (d.content? (loc ++ rel)).isSome = true ∧
        ∃ tokens, Glob.parse pattern = .ok tokens ∧ Glob.accepts tokens (relativePath rel) = true) ∧
      ∀ b, d.find true root = .ok ⟨loc, some .directory, b⟩ → ∀ tokens,
        Glob.parse pattern = .ok tokens → ∀ rel, rel ≠ [] → (d.content? (loc ++ rel)).isSome = true →
          Glob.accepts tokens (relativePath rel) = true → rel ∈ rels := by
  rw [expand] at h
  split at h
  case h_2 hnone =>
    cases h
    refine ⟨[], rfl, .nil, fun rel hrel => ?_, fun b hf => absurd hf (hnone loc b)⟩
    exact absurd hrel List.not_mem_nil
  case h_1 l b hf =>
    obtain rfl := hroot hf
    cases ht : Glob.parse pattern with
    | error e =>
      rw [ht] at h
      cases h
    | ok tokens =>
      rw [ht] at h
      cases h
      have hmem : ∀ rel, (∃ e, (rel, e) ∈ (d.below l).filter fun x =>
          x.2.isFile && Glob.accepts tokens (relativePath x.1)) ↔
          rel ≠ [] ∧ (d.content? (l ++ rel)).isSome = true ∧
            Glob.accepts tokens (relativePath rel) = true := by
        intro rel
        simp only [List.mem_filter, mem_below_iff, Bool.and_eq_true, isSome_content?_iff]
        constructor
        · rintro ⟨e, ⟨hne, hg⟩, hfile, ha⟩
          exact ⟨hne, ⟨e, hg, hfile⟩, ha⟩
        · rintro ⟨hne, ⟨e, hg, hfile⟩, ha⟩
          exact ⟨e, ⟨hne, hg⟩, hfile, ha⟩
      refine ⟨((d.below l).filter fun x => x.2.isFile && Glob.accepts tokens (relativePath x.1)).map
        (·.1), ?_, ?_, fun rel hrel => ?_, fun b hf tokens' ht' rel hne hc ha => ?_⟩
      · rw [filter_filesBelow, List.map_map]
        rfl
      · rw [List.pairwise_map]
        exact (sorted_below d l).sublist List.filter_sublist
      · obtain ⟨⟨rel, e⟩, hx, rfl⟩ := List.mem_map.1 hrel
        obtain ⟨hne, hc, ha⟩ := (hmem rel).1 ⟨e, hx⟩
        obtain ⟨e', hg, -⟩ := isSome_content?_iff.1 hc
        exact ⟨inside_of_get? hg hne, hc, tokens, rfl, ha⟩
      · cases ht'
        obtain ⟨e, hx⟩ := (hmem rel).2 ⟨hne, hc, ha⟩
        exact List.mem_map.2 ⟨_, hx, rfl⟩

/-- A text stays where the file keeps its content. -/
theorem readText_of_keeps {text : String} (hk : X.Keeps Y)
    (hsame : ∀ {l e b}, X.find true p = .ok ⟨l, some e, b⟩ → Y.content? l = X.content? l)
    (h : X.readText p = .ok text) : Y.readText p = .ok text := by
  obtain ⟨l, content, x, b, hf, hd⟩ := readText_eq_ok_iff.1 h
  obtain ⟨e, -, hf'⟩ := hk.find hf
  have hX : X.content? l = some content := by
    rw [content?, (sound_of_find hf).entry_eq.symm]
  obtain ⟨x', hg⟩ := get?_of_content? ((hsame hf).trans hX)
  have he := (sound_of_find hf').entry_eq
  rw [hg] at he
  cases he
  exact readText_eq_ok_iff.2 ⟨l, content, x', b, hf', hd⟩

end LocaleForge.Disk
