import LocaleForge.Build.Storage
import LocaleForge.Proofs.Walk

/-!
Removing the directory that a path leads to. The removal looks the path up again after it has
emptied the directory, so it depends on the way of the path, and not on what lay in the directory.
-/

namespace LocaleForge

namespace Disk

variable {d d' : Disk} {p : Path} {loc : Location}

/-! ## Smaller trees -/

theorem keeps_of_sub (hw : d'.workDir = d.workDir)
    (h : ∀ loc, d.get? loc = d'.get? loc ∨ d.get? loc = none) : d.Keeps d' where
  workDir := hw
  entry {loc e} he := by
    rcases h loc with h | h
    · exact ⟨e, h ▸ he, .rfl⟩
    · rw [h] at he
      cases he

theorem erase_keeps (d : Disk) (loc : Location) : (d.erase loc).Keeps d :=
  keeps_of_sub rfl fun l => by
    by_cases hl : l = []
    · simp [hl]
    · rw [get?_erase hl]
      split
      · exact .inr rfl
      · exact .inl rfl

theorem eraseBelow_keeps (d : Disk) (loc : Location) : (d.eraseBelow loc).Keeps d :=
  keeps_of_sub rfl fun l => by
    rw [get?_eraseBelow]
    split
    · exact .inr rfl
    · exact .inl rfl

theorem erase_eraseBelow (d : Disk) (loc : Location) : (d.eraseBelow loc).erase loc = d.erase loc :=
  ext_get? rfl fun l => by
    by_cases hl : l = []
    · simp [hl]
    · rw [get?_erase hl, get?_erase hl, get?_eraseBelow]
      split
      · rfl
      · rw [if_neg]
        simp_all [isBelow]

/-! ## Directories at the end of paths -/

/-- Nothing lies at the location, and the path leads to nothing. -/
def Lacks (d : Disk) (p : Path) (loc : Location) : Prop :=
  d.get? loc = none ∧ d.exists? p = false

/-- The path leads to a directory at the location, which is no link to one. -/
structure HasDirectory (d : Disk) (p : Path) (loc : Location) : Prop where
  leads : ∀ follow, d.find follow p = .ok ⟨loc, some .directory, false⟩
  real : d.find false (bare p) = .ok ⟨loc, some .directory, false⟩

/-- The path ends in a name, and the way to it is not through what lies below the location. -/
structure Removable (d : Disk) (p : Path) (loc : Location) : Prop where
  named : ∃ name, lastPiece? p = some name ∧ name ≠ "." ∧ name ≠ ".."
  reached : ∃ s, (d.eraseBelow loc).find true (frontOf p) = .ok s

theorem exists?_eq_true_iff : d.exists? p = true ↔ ∃ loc e b, d.find true p = .ok ⟨loc, some e, b⟩ := by
  rw [exists?, entryAt?]
  constructor
  · intro h
    split at h
    case h_1 s hs =>
      obtain ⟨loc, e, b⟩ := s
      obtain ⟨e, rfl⟩ := Option.isSome_iff_exists.1 h
      exact ⟨loc, e, b, hs⟩
    case h_2 => cases h
  · rintro ⟨loc, e, b, h⟩
    rw [h]
    rfl

theorem Keeps.exists? (hk : d.Keeps d') (h : d.exists? p = true) : d'.exists? p = true := by
  obtain ⟨l, e, b, hf⟩ := exists?_eq_true_iff.1 h
  obtain ⟨e', -, hf'⟩ := hk.find hf
  exact exists?_eq_true_iff.2 ⟨l, e', b, hf'⟩

theorem HasDirectory.exists? (h : d.HasDirectory p loc) : d.exists? p = true :=
  exists?_eq_true_iff.2 ⟨_, _, _, h.leads true⟩

theorem HasDirectory.get? (h : d.HasDirectory p loc) : d.get? loc = some .directory :=
  (sound_of_find (h.leads true)).entry_eq.symm

theorem Lacks.of_keeps (h : d.Lacks p loc) (hk : d'.Keeps d) : d'.Lacks p loc := by
  constructor
  · cases he : d'.get? loc with
    | none => rfl
    | some e =>
      obtain ⟨e', he', -⟩ := hk.entry he
      rw [h.1] at he'
      cases he'
  · cases he : d'.exists? p with
    | false => rfl
    | true => exact absurd (hk.exists? he) (by simp [h.2])

/-- A directory that its path does not pass through is removed with all that lies below it. -/
theorem HasDirectory.removeTree (h : d.HasDirectory p loc) (hr : d.Removable p loc) :
    d.removeTree p = (.ok (), d.erase loc) := by
  obtain ⟨⟨name, hname, hdot, hup⟩, s, hs⟩ := hr
  rw [LocaleForge.Disk.removeTree, h.leads]
  simp only
  rw [removeEmptied, hs, hname]
  split
  case h_1 he => cases he
  case h_2 hn => cases hn
  case h_3 hn => exact absurd (Option.some.inj hn) hdot
  case h_4 hn => exact absurd (Option.some.inj hn) hup
  case h_5 =>
    split
    case h_1 l target b hf =>
      obtain ⟨e', hl, he⟩ := (eraseBelow_keeps d loc).find hf
      rw [h.real] at he
      cases he
      cases hl.eq_of_not_isFile rfl
    case h_2 => rw [erase_eraseBelow]

end Disk

end LocaleForge
