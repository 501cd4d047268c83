import LocaleForge.Disk.Basic

/-!
Trees seen through `Disk.get?`: what each operation does to the entry at each location. Two trees
with the same entries and the same working directory are equal.
-/

namespace LocaleForge.Disk

theorem get?_set_self {d : Disk} {loc : Location} {e : Entry} (h : d.Fits loc e) :
    (d.set loc e).get? loc = some e := by
  rw [get?_eq_some_iff (ne_nil_of_fits h), set, dif_pos h]
  exact mem_setEntry_self loc e d.entries

theorem get?_set_of_ne {d : Disk} {loc k : Location} {e : Entry} (h : k ≠ loc) :
    (d.set loc e).get? k = d.get? k := by
  by_cases hk : k = []
  · simp [hk]
  · by_cases hf : d.Fits loc e
    · refine Option.ext fun f => ?_
      rw [get?_eq_some_iff hk, get?_eq_some_iff hk, set, dif_pos hf]
      refine ⟨fun hm => ?_, fun hm => mem_setEntry_of_ne hm h⟩
      rcases mem_of_mem_setEntry hm with he | hm
      · exact absurd (congrArg Prod.fst he) h
      · exact hm
    · rw [set, dif_neg hf]

theorem get?_set {d : Disk} {loc k : Location} {e : Entry} (h : d.Fits loc e) :
    (d.set loc e).get? k = if k = loc then some e else d.get? k := by
  split
  case isTrue hk => rw [hk, get?_set_self h]
  case isFalse hk => exact get?_set_of_ne hk

@[simp]
theorem workDir_set (d : Disk) (loc : Location) (e : Entry) : (d.set loc e).workDir = d.workDir := by
  rw [set]
  split <;> rfl

theorem get?_restrict {d : Disk} {keep : Location → Bool}
    {h : ∀ loc, keep loc → loc.dropLast ≠ [] → keep loc.dropLast} {loc : Location} (hl : loc ≠ []) :
    (d.restrict keep h).get? loc = if keep loc then d.get? loc else none := by
  refine Option.ext fun e => ?_
  rw [get?_eq_some_iff hl]
  by_cases hk : keep loc
  · rw [if_pos hk, get?_eq_some_iff hl]
    exact ⟨fun hm => (List.mem_filter.1 hm).1, fun hm => List.mem_filter.2 ⟨hm, hk⟩⟩
  · rw [if_neg hk]
    exact ⟨fun hm => absurd (List.mem_filter.1 hm).2 hk, nofun⟩

theorem isBelow_nil (base : Location) : isBelow base [] = false := by
  cases base <;> simp [isBelow]

theorem get?_eraseBelow (d : Disk) (base loc : Location) :
    (d.eraseBelow base).get? loc = if isBelow base loc then none else d.get? loc := by
  by_cases hl : loc = []
  · simp [hl, isBelow_nil]
  · rw [eraseBelow, get?_restrict hl]
    cases isBelow base loc <;> rfl

theorem get?_erase {d : Disk} {base loc : Location} (hl : loc ≠ []) :
    (d.erase base).get? loc = if base.isPrefixOf loc then none else d.get? loc := by
  rw [erase, get?_restrict hl]
  cases base.isPrefixOf loc <;> rfl

@[simp]
theorem get?_within (d : Disk) (dir loc : Location) : (d.within dir).get? loc = d.get? loc :=
  rfl

/-- Everything above what lies somewhere is a directory. -/
theorem get?_of_isBelow {d : Disk} {base loc : Location} (hb : isBelow base loc)
    {e : Entry} (h : d.get? loc = some e) : d.get? base = some .directory := by
  simp only [isBelow, Bool.and_eq_true, decide_eq_true_eq, List.isPrefixOf_iff_prefix] at hb
  obtain ⟨⟨rest, rfl⟩, hne⟩ := hb
  induction hr : rest.length generalizing rest e with
  | zero => simp [List.length_eq_zero_iff.1 hr] at hne
  | succ n ih =>
    have hrest : rest ≠ [] := by rintro rfl; simp at hr
    have hd := get?_dropLast h
    rw [List.dropLast_append_of_ne_nil hrest] at hd
    by_cases hz : rest.dropLast = []
    · simpa [hz] using hd
    · exact ih rest.dropLast hd (by simpa using hz) (by simp [hr])

/-- Below what is no directory lies nothing. -/
theorem get?_eq_none_of_isBelow {d : Disk} {base loc : Location} (hb : isBelow base loc)
    (h : d.get? base ≠ some .directory) : d.get? loc = none := by
  cases he : d.get? loc with
  | none => rfl
  | some e => exact absurd (get?_of_isBelow hb he) h

/-- Two trees are equal when they have the same entries. -/
theorem ext_get? {d d' : Disk} (hw : d.workDir = d'.workDir) (h : ∀ loc, d.get? loc = d'.get? loc) :
    d = d' := by
  obtain ⟨w, es, ht⟩ := d
  obtain ⟨w', es', ht'⟩ := d'
  have hes : es = es' := by
    refine ht.sorted.eq_of_mem_iff ht'.sorted fun x => ?_
    obtain ⟨loc, e⟩ := x
    by_cases hl : loc = []
    · subst hl
      exact ⟨fun hx => absurd rfl (ht.rooted _ hx), fun hx => absurd rfl (ht'.rooted _ hx)⟩
    · exact (get?_eq_some_iff (d := ⟨w, es, ht⟩) hl).symm.trans
        ((iff_of_eq (congrArg (· = some e) (h loc))).trans
          (get?_eq_some_iff (d := ⟨w', es', ht'⟩) hl))
  subst hw hes
  rfl

/-- What is listed below a location are the entries there, by their relative locations. -/
theorem mem_below_iff {d : Disk} {base rel : Location} {e : Entry} :
    (rel, e) ∈ d.below base ↔ rel ≠ [] ∧ d.get? (base ++ rel) = some e := by
  simp only [below, List.mem_map, List.mem_filter, isBelow, Bool.and_eq_true, decide_eq_true_eq,
    List.isPrefixOf_iff_prefix, Prod.mk.injEq, Prod.exists]
  constructor
  · rintro ⟨loc, f, ⟨hm, ⟨r, rfl⟩, hne⟩, rfl, rfl⟩
    have hr : r ≠ [] := by rintro rfl; simp at hne
    rw [List.drop_left]
    exact ⟨hr, (get?_eq_some_iff (by simp [hr])).2 hm⟩
  · rintro ⟨hr, h⟩
    refine ⟨base ++ rel, e, ⟨(get?_eq_some_iff (by simp [hr])).1 h, ⟨rel, rfl⟩, by simpa using hr⟩, ?_, rfl⟩
    rw [List.drop_left]

end LocaleForge.Disk
