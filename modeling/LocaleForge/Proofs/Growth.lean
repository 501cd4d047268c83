import LocaleForge.Build.Storage
import LocaleForge.Proofs.Heading

/-!
Trees that grow while a build runs. Directories are added anywhere, and files in a region, where they
may also take the place of other files. Where a path leads is where it headed at the start.
-/

namespace LocaleForge.Disk

/-- The second tree is the first one with more directories and with other files in a region. -/
structure Grown (d : Disk) (region : Location → Prop) (X : Disk) : Prop where
  workDir : X.workDir = d.workDir
  kept : ∀ {loc e}, d.get? loc = some e →
    ∃ e', X.get? loc = some e' ∧ e.Like e' ∧ (¬ region loc → e' = e)
  added : ∀ {loc e}, X.get? loc = some e →
    d.get? loc = some e ∨ e = .directory ∨ (region loc ∧ e.isFile = true)

variable {d X Y : Disk} {region : Location → Prop} {dir loc : Location} {ps : List String}
  {s : Spot} {onLink : Location → List String → Except Fault Spot}

theorem Grown.refl (d : Disk) (region : Location → Prop) : d.Grown region d :=
  ⟨rfl, fun h => ⟨_, h, .rfl, fun _ => rfl⟩, fun h => .inl h⟩

theorem Grown.keeps (h : d.Grown region X) : d.Keeps X where
  workDir := h.workDir
  entry hd := by
    obtain ⟨e', hx, hl, -⟩ := h.kept hd
    exact ⟨e', hx, hl⟩

/-- Links are those of the start. -/
theorem Grown.get?_link_iff (h : d.Grown region X) {target : String} :
    X.get? loc = some (.link target) ↔ d.get? loc = some (.link target) := by
  constructor
  · intro hx
    rcases h.added hx with hd | hd | ⟨-, hd⟩
    · exact hd
    · cases hd
    · cases hd
  · intro hd
    exact h.keeps.get? hd rfl

/-- Files outside the region are those of the start. -/
theorem Grown.get?_file_iff (h : d.Grown region X) (hr : ¬ region loc) {content : ByteArray} {x : Bool} :
    X.get? loc = some (.file content x) ↔ d.get? loc = some (.file content x) := by
  constructor
  · intro hx
    rcases h.added hx with hd | hd | ⟨hr', -⟩
    · exact hd
    · cases hd
    · exact absurd hr' hr
  · intro hd
    obtain ⟨e', hx, -, he⟩ := h.kept hd
    rw [hx, he hr]

/-! ## Where paths lead in a tree with the same links -/

/-- The same links lie in both trees. -/
structure SameLinks (d X : Disk) : Prop where
  workDir : X.workDir = d.workDir
  link_iff : ∀ {loc : Location} {target : String},
    X.get? loc = some (.link target) ↔ d.get? loc = some (.link target)

theorem Grown.sameLinks (h : d.Grown region X) : d.SameLinks X :=
  ⟨h.workDir, h.get?_link_iff⟩

theorem SameLinks.ne_link (h : d.SameLinks X) (hx : ∀ target, X.get? loc ≠ some (.link target))
    (target : String) : d.get? loc ≠ some (.link target) :=
  fun hd => hx target (h.link_iff.2 hd)

theorem SameLinks.head_of_walks (h : d.SameLinks X) {n : Nat} (hw : X.Walks true n dir ps s) :
    d.head n dir ps = some s.location := by
  induction hw with
  | here => exact head_nil
  | idle hp _ ih => exact (head_idle hp).trans ih
  | up _ ih => exact head_up.trans ih
  | down hp hg _ ih => exact (head_down hp (h.ne_link (by simp [hg]))).trans ih
  | missing hp hg hps => exact (head_down hp (h.ne_link (by simp [hg]))).trans (head_idles hps)
  | file hp hg hps =>
    rw [List.isEmpty_iff.1 hps]
    exact (head_down hp (h.ne_link (by simp [hg]))).trans head_nil
  | stop _ _ hps => simp at hps
  | link hp hg _ _ ih => exact (head_link hp (h.link_iff.1 hg)).trans ih

/-- A path leads to where it heads in the other tree. -/
theorem SameLinks.heading?_of_find (h : d.SameLinks X) {p : Path} (hf : X.find true p = .ok s) :
    d.heading? p = some s.location := by
  have hw := (find_eq_ok_iff.1 hf).2
  rw [origin, h.workDir] at hw
  rw [heading?]
  exact h.head_of_walks hw

theorem SameLinks.headWith_eq (h : d.SameLinks X) {onLink : Location → List String → Option Location} :
    headWith X onLink dir ps = headWith d onLink dir ps := by
  induction ps generalizing dir with
  | nil => rfl
  | cons p ps ih =>
    cases hidle : Path.isIdle p with
    | true => rw [headWith_idle hidle, headWith_idle hidle, ih]
    | false =>
      by_cases hp : p = ".."
      · rw [hp, headWith_up, headWith_up, ih]
      · by_cases hlink : ∃ target, X.get? (dir ++ [p]) = some (.link target)
        · obtain ⟨target, hx⟩ := hlink
          rw [headWith_name hidle hp, headWith_name hidle hp, hx, h.link_iff.1 hx]
        · have hx := not_exists.1 hlink
          rw [headWith_down hidle hp hx, headWith_down hidle hp fun target hd => hx target (h.link_iff.2 hd), ih]

theorem SameLinks.head_eq (h : d.SameLinks X) (n : Nat) : X.head n = d.head n := by
  funext dir ps
  induction n generalizing dir ps with
  | zero => exact h.headWith_eq
  | succ n ih =>
    rw [head, head, funext fun dir => funext (ih dir)]
    exact h.headWith_eq

/-- Where a path heads is a matter of the links alone. -/
theorem SameLinks.heading?_eq (h : d.SameLinks X) (p : Path) : X.heading? p = d.heading? p := by
  rw [heading?, heading?, origin, origin, h.workDir, h.head_eq]

/-- A path leads to where it headed at the start. -/
theorem Grown.heading?_of_find (h : d.Grown region X) {p : Path} (hf : X.find true p = .ok s) :
    d.heading? p = some s.location :=
  h.sameLinks.heading?_of_find hf

end LocaleForge.Disk
