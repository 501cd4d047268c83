import LocaleForge.Locale.Entry
import LocaleForge.Proofs.NamedFiles
import Mathlib.Data.List.Forall2

/-!
The identifiers that the entry of an aggregate binds. An identifier is the stem of a file with underscores for
its hyphens: it keeps neither the directory nor the extension, and does not tell the two marks apart. Two
modules have the same identifier just if their stems agree up to this.
-/

namespace LocaleForge

namespace Locale

variable {s name file a b base : String} {c d : Char} {front files : List String}

/-! ## Stems -/

/-- What a name is before its last dot. A dot at the front does not count. -/
def IsStem (s name : String) : Prop :=
  (∃ ext : String, s ≠ "" ∧ '.' ∉ ext.toList ∧ name = s ++ "." ++ ext) ∨
    s = name ∧ '.' ∉ name.toList.tail

theorem isStem_stemOf (name : String) : IsStem (Path.stemOf name) name := by
  have hname := Text.join_cut '.' name
  rw [Path.stemOf]
  split
  case h_1 hnil => exact absurd hnil (Text.cut_ne_nil '.' name)
  case h_2 piece hone =>
    have hdot : '.' ∉ piece.toList := Text.sep_notMem_of_mem_cut (hone ▸ List.mem_singleton_self piece)
    have hpiece : piece = name := by
      rw [hone] at hname
      simpa [Text.join, Text.glue] using hname
    exact .inr ⟨rfl, fun hmem => hdot (hpiece ▸ List.mem_of_mem_tail hmem)⟩
  case h_3 hnil hone =>
    obtain ⟨front, ext, hcut⟩ := (List.eq_nil_or_concat _).resolve_left (Text.cut_ne_nil '.' name)
    rw [List.concat_eq_append] at hcut
    have hfront : front ≠ [] := by
      rintro rfl
      exact hone ext hcut
    have hext : '.' ∉ ext.toList := Text.sep_notMem_of_mem_cut (s := name) (by simp [hcut])
    have hwhole : name.toList = (Text.join '.' front).toList ++ '.' :: ext.toList := by
      rw [← Text.toList_join_concat hfront, ← hcut, hname]
    rw [hcut, List.dropLast_concat]
    split
    case h_1 hempty =>
      rw [hempty] at hwhole
      exact .inr ⟨rfl, by simpa [hwhole] using hext⟩
    case h_2 hne =>
      refine .inl ⟨ext, hne, hext, String.toList_injective ?_⟩
      simp [hwhole]

theorem IsStem.eq (h : IsStem s name) : Path.stemOf name = s := by
  rcases h with ⟨ext, hs, hext, rfl⟩ | ⟨rfl, htail⟩
  · have hcut : Text.cut '.' (s ++ "." ++ ext) = Text.cut '.' s ++ [ext] := by
      rw [← Text.cut_of_notMem hext]
      exact Text.cut_eq_append (by simp)
    rw [Path.stemOf, hcut]
    split
    case h_1 hnil => simp at hnil
    case h_2 piece hone =>
      simp [List.append_eq_singleton_iff, Text.cut_ne_nil] at hone
    case h_3 =>
      rw [List.dropLast_concat, Text.join_cut]
      split
      case h_1 => exact absurd rfl hs
      case h_2 => rfl
  · rw [Path.stemOf, Text.cut]
    cases hchars : s.toList with
    | nil => rfl
    | cons c cs =>
      rw [hchars, List.tail_cons] at htail
      by_cases hc : c = '.'
      · rw [hc, Text.pieces_cons_sep, Text.pieces_of_notMem htail]
        rfl
      · rw [Text.pieces_of_notMem (by simp [Ne.symm hc, htail])]
        rfl

/-- The name that a module file is bound to before its hyphens are replaced. -/
def stem (file : String) : String :=
  (Path.stem? ⟨file⟩).getD file

theorem isStem_stem (hcut : Text.cut '/' file = front ++ [name]) (hname : Path.Simple name) :
    IsStem (stem file) name := by
  rw [stem, Path.stem?, Path.fileName?_of_cut hcut hname]
  exact isStem_stemOf name

theorem stem_eq (hcut : Text.cut '/' file = front ++ [name]) (hname : Path.Simple name)
    (h : IsStem s name) : stem file = s := by
  rw [stem, Path.stem?, Path.fileName?_of_cut hcut hname]
  exact h.eq

theorem stem_subset (file : String) : (stem file).toList ⊆ file.toList := by
  rw [stem, Path.stem?]
  cases hfile : (Path.mk file).fileName? with
  | none => exact List.Subset.refl _
  | some name =>
    have hstem : (Path.stemOf name).toList ⊆ name.toList := by
      rcases isStem_stemOf name with ⟨ext, -, -, hname⟩ | ⟨hname, -⟩
      · conv_rhs => rw [hname]
        simp
      · rw [hname]
        exact List.Subset.refl _
    have hpiece := Path.mem_cut_of_mem_pieces (Path.mem_pieces_of_fileName? hfile).1
    exact List.Subset.trans hstem (Text.subset_of_mem_cut hpiece)

/-! ## Identifiers -/

/-- An underscore for a hyphen. -/
def unhyphened (c : Char) : Char :=
  if c = '-' then '_' else c

theorem toList_identifier (file : String) :
    (identifier file).toList = (stem file).toList.map unhyphened :=
  String.toList_ofList

/-- An identifier has the characters of its file, and underscores. -/
theorem mem_identifier (h : c ∈ (identifier file).toList) : c = '_' ∨ c ∈ file.toList := by
  rw [toList_identifier] at h
  obtain ⟨d, hd, rfl⟩ := List.mem_map.1 h
  rw [unhyphened]
  split
  · exact .inl rfl
  · exact .inr (stem_subset file hd)

/-- The characters are the same or are both marks between the parts of a name. -/
def Alike (c d : Char) : Prop :=
  c = d ∨ (c = '-' ∨ c = '_') ∧ (d = '-' ∨ d = '_')

theorem unhyphened_eq_iff : unhyphened c = unhyphened d ↔ Alike c d := by
  rw [unhyphened, unhyphened, Alike]
  split_ifs <;> grind

/-- The stems agree but for their marks. -/
def Clash (a b : String) : Prop :=
  List.Forall₂ Alike (stem a).toList (stem b).toList

theorem identifier_eq_iff : identifier a = identifier b ↔ Clash a b := by
  rw [← String.toList_inj, toList_identifier, toList_identifier, ← List.forall₂_eq_eq_eq,
    List.forall₂_map_left_iff, List.forall₂_map_right_iff, Clash]
  simp only [unhyphened_eq_iff]

/-- Stems without underscores do not clash unless they are the same. -/
theorem Clash.stem_eq (h : Clash a b) (ha : '_' ∉ (stem a).toList) (hb : '_' ∉ (stem b).toList) :
    stem a = stem b := by
  rw [← String.toList_inj]
  rw [Clash] at h
  generalize (stem a).toList = as at h ha
  generalize (stem b).toList = bs at h hb
  induction h with
  | nil => rfl
  | @cons c d as bs hcd _ ih =>
    simp only [List.mem_cons, not_or] at ha hb
    have hsame : c = d := by grind [Alike]
    rw [hsame, ih ha.2 hb.2]

/-- The identifiers that the entry binds, in its order. -/
def bindings (base : String) (files : List String) : List String :=
  (base :: files).map identifier

/-- But for its second line and its last one, the entry imports the modules under these identifiers. -/
theorem imports_eq (base defaultLocale : String) (files : List String) :
    (entryLines base defaultLocale files).eraseIdx 1 =
      List.zipWith importLine (bindings base files) (base :: files) ++
        [identifier base ++ ".locale('" ++ defaultLocale ++ "');"] := by
  rw [entryLines, bindings, List.zipWith_map_left, List.zipWith_self]
  rfl

theorem nodup_bindings_iff (h : files.Nodup) : (bindings base files).Nodup ↔
    (∀ a ∈ files, ∀ b ∈ files, Clash a b → a = b) ∧ ∀ file ∈ files, ¬ Clash base file := by
  rw [bindings, List.map_cons, List.nodup_cons, List.nodup_map_iff_inj_on h, and_comm, List.mem_map]
  refine and_congr (by simp only [identifier_eq_iff]) ⟨fun hbase file hfile hclash => hbase ?_, ?_⟩
  · exact ⟨file, hfile, (identifier_eq_iff.2 hclash).symm⟩
  · rintro hbase ⟨file, hfile, hsame⟩
    exact hbase file hfile (identifier_eq_iff.1 hsame.symm)

end Locale

/-! ## Discovered files -/

theorem Disk.nodup_of_expand {d : Disk} {root : Path} {pattern : String} {files : List String}
    (h : d.expand root pattern = .ok files) : files.Nodup := by
  cases files with
  | nil => exact .nil
  | cons file files =>
    obtain ⟨tokens, rel, hparse, -⟩ := mem_expand h List.mem_cons_self
    obtain ⟨all, hall, hnodup, -⟩ := @exists_expand pattern tokens d root hparse
    cases h.symm.trans hall
    exact hnodup

/-- The small project with a locale and a regional one. -/
def Disk.regional : Disk :=
  ((small.set ["src", "l"] .directory).set ["src", "l", "de-at.js"] (.file (Text.encode "a") false)).set
    ["src", "l", "de.js"] (.file (Text.encode "b") false)

/-- The same with files whose names differ in a mark or in their directory, or are that of the base module. -/
def Disk.clashing : Disk :=
  (((regional.set ["src", "l", "de_at.js"] (.file (Text.encode "c") false)).set ["src", "l", "m.js"]
    (.file (Text.encode "d") false)).set ["src", "l", "x"] .directory).set ["src", "l", "x", "m.js"]
    (.file (Text.encode "e") false)

namespace Context

open Build LocaleForge.Locale

variable {ctx : Context} {s t : BuildState} {files : List String}

/-- The entry for the discovered files imports the base module and these files. A file is named by its last
segment. An identifier is bound twice just if the stems of two files, or of one and the base
module, agree but for their marks. In one directory, files with one extension and without
underscores have identifiers of their own. -/
theorem discovered_bindings (usual : ctx.storage = .disk) (h : ctx.discoverLocales.Gives s files t) :
    (∀ defaultLocale, ∃ last, (entryLines ctx.settings.baseModule defaultLocale files).eraseIdx 1 =
      List.zipWith importLine (bindings ctx.settings.baseModule files) (ctx.settings.baseModule :: files) ++
        [last]) ∧
    (∀ file ∈ files, ∃ front name, Text.cut '/' file = front ++ [name] ∧ IsStem (stem file) name) ∧
    ((bindings ctx.settings.baseModule files).Nodup ↔ (∀ a ∈ files, ∀ b ∈ files, Clash a b → a = b) ∧
      ∀ file ∈ files, ¬ Clash ctx.settings.baseModule file) ∧
    ∀ (front : List String) (ext : String), '.' ∉ ext.toList →
      (∀ file ∈ files, ∃ name : String, name ≠ "" ∧ '_' ∉ name.toList ∧
        Text.cut '/' file = front ++ [name ++ "." ++ ext]) →
      (files.map identifier).Nodup := by
  have hfiles := (expand_gives usual h).1
  have hnodup := Disk.nodup_of_expand hfiles
  have hnamed : ∀ file ∈ files, ∀ n ∈ Text.cut '/' file, Path.Simple n := by
    intro file hfile n hn
    obtain ⟨-, rel, -, -, -, hcut, hnames⟩ := Disk.mem_expand hfiles hfile
    exact Path.simple_of_isName (hnames n (hcut ▸ hn))
  refine ⟨fun defaultLocale => ⟨_, imports_eq _ defaultLocale files⟩, fun file hfile => ?_,
    nodup_bindings_iff hnodup, fun front ext hext hall => ?_⟩
  · obtain ⟨front, name, hcut⟩ := (List.eq_nil_or_concat _).resolve_left (Text.cut_ne_nil '/' file)
    rw [List.concat_eq_append] at hcut
    exact ⟨front, name, hcut, isStem_stem hcut (hnamed file hfile name (by simp [hcut]))⟩
  · refine (List.nodup_map_iff_inj_on hnodup).2 fun a ha b hb hsame => ?_
    obtain ⟨m, hm, hma, hcuta⟩ := hall a ha
    obtain ⟨n, hn, hnb, hcutb⟩ := hall b hb
    have hstem : stem a = m := stem_eq hcuta (hnamed a ha _ (by simp [hcuta])) (.inl ⟨ext, hm, hext, rfl⟩)
    have hstem' : stem b = n := stem_eq hcutb (hnamed b hb _ (by simp [hcutb])) (.inl ⟨ext, hn, hext, rfl⟩)
    have hclash := identifier_eq_iff.1 hsame
    have hmn := hclash.stem_eq (by rwa [hstem]) (by rwa [hstem'])
    rw [hstem, hstem'] at hmn
    rw [← Text.join_cut '/' a, hcuta, hmn, ← hcutb, Text.join_cut]

theorem discovered_bindings_small :
    let ctx := small .small "b"
    ctx.storage = .disk ∧ ∃ t, ctx.discoverLocales.Gives (.fresh .regional) ["l/de-at.js", "l/de.js"] t ∧
      (["l/de-at.js", "l/de.js"].map identifier).Nodup := by
  intro ctx
  obtain ⟨t, ht⟩ : ∃ t, ctx.discoverLocales.Gives (.fresh .regional) ["l/de-at.js", "l/de.js"] t :=
    ⟨_, gives_of_run (by decide +kernel)⟩
  obtain ⟨-, -, -, hone⟩ := @discovered_bindings ctx (.fresh .regional) t _ rfl ht
  refine ⟨rfl, t, ht, hone ["l"] "js" (by decide) ?_⟩
  simp only [List.forall_mem_cons, List.not_mem_nil, false_imp_iff, implies_true, and_true]
  exact ⟨⟨"de-at", by decide, by decide, by decide⟩, ⟨"de", by decide, by decide, by decide⟩⟩

/-- Locale files in one directory that differ in a mark, locale files with one name in two directories, and a
locale file with the name of the base module are bound to one identifier. -/
theorem clashing_bindings :
    let ctx := small { Settings.small with localesPattern := "l/**/*.js" } "b"
    ∃ files t, ctx.discoverLocales.Gives (.fresh .clashing) files t ∧
      files = ["l/de-at.js", "l/de.js", "l/de_at.js", "l/m.js", "l/x/m.js"] ∧
      bindings ctx.settings.baseModule files = ["m", "de_at", "de", "de_at", "m", "m"] ∧
      ¬ (bindings ctx.settings.baseModule files).Nodup := by
  intro ctx
  have hrun : (ctx.discoverLocales.run.run (.fresh .clashing)).1.toOption =
      some ["l/de-at.js", "l/de.js", "l/de_at.js", "l/m.js", "l/x/m.js"] := by decide +kernel
  refine ⟨_, _, gives_of_run hrun, rfl, ?_⟩
  have hbound : bindings ctx.settings.baseModule
      ["l/de-at.js", "l/de.js", "l/de_at.js", "l/m.js", "l/x/m.js"] =
        ["m", "de_at", "de", "de_at", "m", "m"] := by decide +kernel
  exact ⟨hbound, by rw [hbound]; decide⟩

end Context

end LocaleForge
