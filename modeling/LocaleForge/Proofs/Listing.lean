import LocaleForge.Proofs.Calls
import LocaleForge.Proofs.Locations
import LocaleForge.Proofs.Setting
import Mathlib.Data.List.Sort

/-!
What a pattern lists: the regular files below a directory that it accepts, ordered name by name by the bytes
of the names. The list depends on nothing but where these files lie.
-/

namespace LocaleForge

namespace Text

/-! ## The bytes of texts -/

/-- The bytes of a text, one after another. -/
def byteList (s : String) : List UInt8 :=
  (encode s).data.toList

theorem byteList_eq (s : String) : byteList s = s.toList.flatMap String.utf8EncodeChar := by
  rw [byteList, encode, ← String.utf8Encode_toList, List.utf8Encode, List.toList_data_toByteArray]

theorem utf8EncodeChar_ne_nil (c : Char) : String.utf8EncodeChar c ≠ [] := by
  simp only [String.utf8EncodeChar]
  split_ifs <;> simp

theorem ofNat_cons_lt {m n : Nat} (hm : m < 256) (hn : n < 256) {u v : List UInt8} :
    UInt8.ofNat m :: u < UInt8.ofNat n :: v ↔ m < n ∨ m = n ∧ u < v := by
  rw [List.cons_lt_cons_iff, UInt8.lt_iff_toNat_lt, ← UInt8.toNat_inj, UInt8.toNat_ofNat_of_lt' hm,
    UInt8.toNat_ofNat_of_lt' hn]

/-- The bytes of the lesser of two characters come first, whatever follows them. -/
theorem utf8EncodeChar_append_lt {c d : Char} (h : c < d) (u v : List UInt8) :
    String.utf8EncodeChar c ++ u < String.utf8EncodeChar d ++ v := by
  have hlt : c.val.toNat < d.val.toNat := h
  have hmax : d.val.toNat < 0x110000 := by
    rcases d.valid with hd | hd
    · exact Nat.lt_trans hd (by decide)
    · exact hd.2
  simp only [String.utf8EncodeChar]
  generalize c.val.toNat = m at *
  generalize d.val.toNat = n at *
  clear h
  -- All bytes but the first are digits to the base 64.
  have digits : ∀ k : Nat, k / 4096 = k / 64 / 64 ∧ k / 262144 = k / 64 / 64 / 64 := fun k => by omega
  simp only [(digits m).1, (digits m).2, (digits n).1, (digits n).2]
  split_ifs
  all_goals
    simp (disch := omega) only [List.cons_append, List.nil_append, ofNat_cons_lt]
    omega

/-- Texts are ordered as their bytes are. -/
theorem byteList_lt {s t : String} (h : s < t) : byteList s < byteList t := by
  have hchars : s.toList < t.toList := h
  rw [byteList_eq, byteList_eq]
  generalize s.toList = cs at hchars
  generalize t.toList = ds at hchars
  induction cs generalizing ds with
  | nil =>
    cases ds with
    | nil => exact absurd hchars (List.not_lt_nil _)
    | cons d ds =>
      obtain ⟨b, bs, hb⟩ := List.exists_cons_of_ne_nil (utf8EncodeChar_ne_nil d)
      rw [List.flatMap_nil, List.flatMap_cons, hb]
      exact List.nil_lt_cons b _
  | cons c cs ih =>
    cases ds with
    | nil => exact absurd hchars (List.not_lt_nil _)
    | cons d ds =>
      rw [List.flatMap_cons, List.flatMap_cons]
      rcases List.cons_lt_cons_iff.1 hchars with hlt | ⟨rfl, hlt⟩
      · exact utf8EncodeChar_append_lt hlt _ _
      · exact List.append_left_lt (ih ds hlt)

end Text

namespace Disk

variable {d d' : Disk} {loc loc' : Location} {root : Path} {pattern : String} {files files' : List String}
  {tokens : List Glob.Token} {b : Bool}

/-- The bytes of each name on a relative path. -/
def nameBytes (file : String) : List (List UInt8) :=
  (Text.cut '/' file).map Text.byteList

/-- A file in a directory comes before a file beside it, though a slash comes after a dot. -/
example : nameBytes "a/b.js" < nameBytes "a.js" ∧ "a.js" < "a/b.js" := by
  decide +kernel

/-- The files below a directory that the tokens accept, each one once, by the bytes of their names. -/
structure Lists (d : Disk) (loc : Location) (tokens : List Glob.Token) (files : List String) : Prop where
  ordered : files.Pairwise fun a b => nameBytes a < nameBytes b
  mem_iff : ∀ file, file ∈ files ↔ ∃ rel, rel ≠ [] ∧ (d.content? (loc ++ rel)).isSome = true ∧
    file = relativePath rel ∧ Glob.accepts tokens file = true

theorem Lists.nodup (h : d.Lists loc tokens files) : files.Nodup := by
  refine h.ordered.imp ?_
  rintro file _ hlt rfl
  exact List.lt_irrefl _ hlt

/-- Only where the files lie matters. -/
theorem Lists.eq_of_files (h : d.Lists loc tokens files) (h' : d'.Lists loc' tokens files')
    (same : ∀ rel, rel ≠ [] → (d.content? (loc ++ rel)).isSome = (d'.content? (loc' ++ rel)).isSome) :
    files = files' := by
  have hmem : ∀ file, file ∈ files ↔ file ∈ files' := by
    intro file
    rw [h.mem_iff, h'.mem_iff]
    refine exists_congr fun rel => and_congr_right fun hne => ?_
    rw [same rel hne]
  have hperm := (List.perm_ext_iff_of_nodup h.nodup h'.nodup).2 hmem
  exact hperm.eq_of_pairwise (fun a b _ _ hab hba => absurd (List.lt_trans hab hba) (List.lt_irrefl _))
    h.ordered h'.ordered

theorem isDirectory_iff : d.isDirectory root = true ↔
    ∃ loc b, d.find true root = .ok ⟨loc, some .directory, b⟩ := by
  rw [isDirectory, decide_eq_true_eq, entryAt?]
  constructor
  · intro h
    split at h
    case h_1 s hs =>
      obtain ⟨loc, e, b⟩ := s
      cases h
      exact ⟨loc, b, hs⟩
    case h_2 => cases h
  · rintro ⟨loc, b, h⟩
    rw [h]

theorem expand_of_not_isDirectory (h : d.isDirectory root = false) : d.expand root pattern = .ok [] := by
  rw [expand]
  split
  case h_1 loc b hf => rw [isDirectory_iff.2 ⟨loc, b, hf⟩] at h; cases h
  case h_2 => rfl

theorem expand_of_isDirectory (h : d.isDirectory root = true) {e : Glob.Error}
    (hparse : Glob.parse pattern = .error e) : d.expand root pattern = .error e := by
  obtain ⟨loc, b, hf⟩ := isDirectory_iff.1 h
  rw [expand, hf]
  simp only [hparse]
  rfl

/-- A pattern lists the files below a directory. -/
theorem exists_lists (hf : d.find true root = .ok ⟨loc, some .directory, b⟩)
    (hparse : Glob.parse pattern = .ok tokens) :
    ∃ files, d.expand root pattern = .ok files ∧ d.Lists loc tokens files := by
  obtain ⟨files, hfiles⟩ : ∃ files, d.expand root pattern = .ok files := by
    rw [expand, hf]
    simp only [hparse]
    exact ⟨_, rfl⟩
  have hroot : ∀ {l b'}, d.find true root = .ok ⟨l, some .directory, b'⟩ → l = loc := by
    intro l b' hf'
    rw [hf] at hf'
    cases hf'
    rfl
  obtain ⟨rels, rfl, hsorted, hrels, hall⟩ := expand_locations hroot hfiles
  refine ⟨_, hfiles, ?_, fun file => ?_⟩
  · rw [List.pairwise_map]
    refine hsorted.imp_of_mem fun {rel rel'} hrel hrel' hlt => ?_
    rw [nameBytes, nameBytes, (hrels rel hrel).1.cut, (hrels rel' hrel').1.cut]
    exact List.map_lt (fun _ _ => Text.byteList_lt) hlt
  · rw [List.mem_map]
    constructor
    · rintro ⟨rel, hrel, rfl⟩
      obtain ⟨hinside, hcontent, tokens', hparse', haccepts⟩ := hrels rel hrel
      cases hparse.symm.trans hparse'
      exact ⟨rel, hinside.notEmpty, hcontent, rfl, haccepts⟩
    · rintro ⟨rel, hne, hcontent, rfl, haccepts⟩
      exact ⟨rel, hall b hf tokens hparse rel hne hcontent haccepts, rfl⟩

/-- A tree in which a directory and a file beside it have names that begin alike. -/
def siblings : Disk :=
  ((small.set ["src", "a"] .directory).set ["src", "a.js"] (.file (Text.encode "a") false)).set
    ["src", "a", "b.js"] (.file (Text.encode "b") false)

end Disk

namespace Context

open Build

variable {ctx : Context}

theorem run_expand_usual (usual : ctx.storage = .disk) (root : Path) (pattern : String) (s : BuildState) :
    (ctx.expand root pattern).run.run s =
      (((s.disk.expand root pattern).mapError fun e => .failed ⟨[.matching pattern], .pattern e⟩),
        { s with log := s.log ++ [.expand root pattern] }) := by
  rw [run_expand, usual]
  simp only [Storage.disk]
  cases s.disk.expand root pattern <;> rfl

/-- Listing changes nothing in the tree. Where the root is no directory the list is empty, whatever the
pattern; elsewhere a faulty pattern is a failure, and any other lists the files that it accepts. Two trees
with files at the same places are listed alike. -/
theorem expand_listing (usual : ctx.storage = .disk) (root : Path) (pattern : String) (s : BuildState) :
    ((ctx.expand root pattern).run.run s).2 = { s with log := s.log ++ [.expand root pattern] } ∧
    (s.disk.isDirectory root = false → ((ctx.expand root pattern).run.run s).1 = .ok []) ∧
    (s.disk.isDirectory root = true → ∀ e, Glob.parse pattern = .error e →
      ((ctx.expand root pattern).run.run s).1 = .error (.failed ⟨[.matching pattern], .pattern e⟩)) ∧
    ∀ loc b tokens, s.disk.find true root = .ok ⟨loc, some .directory, b⟩ →
      Glob.parse pattern = .ok tokens → ∃ files,
        ((ctx.expand root pattern).run.run s).1 = .ok files ∧ s.disk.Lists loc tokens files ∧
        ∀ (t : BuildState) root' loc' b', t.disk.find true root' = .ok ⟨loc', some .directory, b'⟩ →
          (∀ rel, rel ≠ [] →
            (s.disk.content? (loc ++ rel)).isSome = (t.disk.content? (loc' ++ rel)).isSome) →
          ((ctx.expand root' pattern).run.run t).1 = .ok files := by
  refine ⟨by rw [run_expand_usual usual], fun hnone => ?_, fun hdir e hparse => ?_, fun loc b tokens hf hparse => ?_⟩
  · rw [run_expand_usual usual, Disk.expand_of_not_isDirectory hnone, mapError_ok]
  · rw [run_expand_usual usual, Disk.expand_of_isDirectory hdir hparse, mapError_error]
  · obtain ⟨files, hfiles, hlists⟩ := Disk.exists_lists hf hparse
    refine ⟨files, by rw [run_expand_usual usual, hfiles, mapError_ok], hlists, fun t root' loc' b' hf' same => ?_⟩
    obtain ⟨files', hfiles', hlists'⟩ := Disk.exists_lists hf' hparse
    rw [run_expand_usual usual, hfiles', mapError_ok, hlists.eq_of_files hlists' same]

theorem expand_listing_small :
    let ctx := small .small "b"
    ctx.storage = .disk ∧ ∃ files, (ctx.expand ⟨"/src"⟩ "**/*.js").Gives (.fresh .siblings) files
        { BuildState.fresh .siblings with log := [.expand ⟨"/src"⟩ "**/*.js"] } ∧
      (files.Pairwise fun a b => Disk.nameBytes a < Disk.nameBytes b) ∧ files.Nodup ∧
      "a.js" ∈ files ∧ "a/b.js" ∈ files := by
  intro ctx
  obtain ⟨hstate, -, -, hlisted⟩ :=
    @expand_listing ctx rfl ⟨"/src"⟩ "**/*.js" (.fresh .siblings)
  have hparse : Glob.parse "**/*.js" = .ok (.deep :: .many :: ".js".toList.map .literal) := rfl
  have hf : Disk.siblings.find true ⟨"/src"⟩ = .ok ⟨["src"], some .directory, false⟩ := by rfl
  obtain ⟨files, hfiles, hlists, -⟩ := hlisted _ _ _ hf hparse
  refine ⟨rfl, files, Prod.ext hfiles hstate, hlists.ordered, hlists.nodup, ?_, ?_⟩
  · exact (hlists.mem_iff _).2 ⟨["a.js"], by decide, by decide +kernel, by decide, by decide +kernel⟩
  · exact (hlists.mem_iff _).2 ⟨["a", "b.js"], by decide, by decide +kernel, by decide, by decide +kernel⟩

end Context

end LocaleForge
