import LocaleForge.Proofs.ReleaseRun
import LocaleForge.Proofs.Setting

/-!
A tree without links in which the inputs lie apart from what builds make: where the paths of a build
head, and what cleaning leaves there.
-/

namespace LocaleForge

/-- A path to the bundle of a format. -/
def Settings.Bundle (s : Settings) (p : Path) : Prop :=
  ∃ f, (s.formatDir f).Beneath p

/-- A path that is written to besides bundles: one into the staging area, or that of the joined
tests. -/
def Settings.Besides (s : Settings) (p : Path) : Prop :=
  s.tmpDir.Beneath p ∨ p = (s.formatDir .umd).join "min/tests.js"

theorem Settings.bundle_join (s : Settings) (f : Format) {rel : String} (h : Path.Plain rel) :
    s.Bundle ((s.formatDir f).join rel) :=
  ⟨f, h.beneath _⟩

theorem Settings.besides_join (s : Settings) {rel : String} (h : Path.Plain rel) :
    s.Besides (s.tmpDir.join rel) :=
  .inl (h.beneath _)

theorem Settings.besides_tests (s : Settings) :
    s.Besides ((s.formatDir .umd).join "min/tests.js") :=
  .inr rfl

theorem Settings.text_formatDir_ne (s : Settings) (f : Format) : (s.formatDir f).text ≠ "" := by
  obtain ⟨front, hfront⟩ := s.outDir.exists_join_eq
  rw [formatDir, hfront f.simple_word.relative]
  intro he
  have hlist := congrArg String.toList he
  rw [String.toList_append] at hlist
  have hword := (List.append_eq_nil_iff.1 hlist).2
  cases f <;> cases hword

namespace Disk

/-- Where the paths head that are written to besides bundles. -/
def Aside (out tmp l : Location) : Prop :=
  tmp <+: l ∨ l = out ++ [Format.umd.word, "min", "tests.js"]

/-- In a tree without links, the source directory and the templates lie neither in the output directory
nor in the staging area, and the staging area and the directories of the formats lie apart. -/
structure Separate (d : Disk) (s : Settings) (src out tmp : Location) : Prop where
  linkFree : d.LinkFree
  srcHeads : d.heading? s.srcDir = some src
  outHeads : d.heading? s.outDir = some out
  tmpHeads : d.heading? s.tmpDir = some tmp
  sources : ¬ (out <+: src ∨ tmp <+: src)
  templates : ∀ p ∈ [s.defaultHeader, s.localeHeader, s.testHeader], ∀ l, d.heading? p = some l →
    ¬ (out <+: l ∨ tmp <+: l)
  apart : ∀ f : Format, ¬ out ++ [f.word] <+: tmp ∧ ¬ tmp <+: out ++ [f.word]

/-- Besides, the source directory is found without the output directory and the staging area, and
nothing in these two is taken for a source. -/
structure Arranged (d : Disk) (s : Settings) (src out tmp : Location) : Prop
    extends d.Separate s src out tmp where
  named : s.outDir.text ≠ ""
  source : d.get? src = some .directory →
    ∃ b, ((d.erase out).erase tmp).find true s.srcDir = .ok ⟨src, some .directory, b⟩
  selected : ∀ rel, s.Selects rel →
    ¬ (out <+: src ++ Path.names (Text.cut '/' rel) ∨ tmp <+: src ++ Path.names (Text.cut '/' rel))

/-- A tree without links that differs from another one at two places only. -/
structure AlteredAt (d : Disk) (out tmp : Location) (Z : Disk) : Prop where
  linkFree : Z.LinkFree
  workDir : Z.workDir = d.workDir
  outside : ∀ l, ¬ (out <+: l ∨ tmp <+: l) → Z.get? l = d.get? l

variable {d Z : Disk} {s : Settings} {src out tmp l : Location} {f : Format}

theorem LinkFree.heading?_formatDir (h : d.LinkFree) (hout : d.heading? s.outDir = some out)
    (f : Format) : d.heading? (s.formatDir f) = some (out ++ [f.word]) := by
  rw [Settings.formatDir, heading?_join hout (fun l _ _ => h l) f.simple_word.plain,
    f.simple_word.cut, Path.names_cons f.simple_word.notIdle, Path.names_nil]

theorem LinkFree.heading?_bundle (h : d.LinkFree) (hout : d.heading? s.outDir = some out) (f : Format)
    {rel : String} (hrel : Path.Plain rel) : d.heading? ((s.formatDir f).join rel) =
      some (out ++ [f.word] ++ Path.names (Text.cut '/' rel)) :=
  heading?_join (h.heading?_formatDir hout f) (fun l _ _ => h l) hrel

theorem LinkFree.heading?_staged (h : d.LinkFree) (htmp : d.heading? s.tmpDir = some tmp) {rel : String}
    (hrel : Path.Plain rel) :
    d.heading? (s.tmpDir.join rel) = some (tmp ++ Path.names (Text.cut '/' rel)) :=
  heading?_join htmp (fun l _ _ => h l) hrel

/-- Without links, bundles go below the output directory and staged files below the staging area. -/
theorem LinkFree.bundle_zones (h : d.LinkFree) (hout : d.heading? s.outDir = some out)
    (htmp : d.heading? s.tmpDir = some tmp) :
    d.Zones s.Bundle s.tmpDir.Beneath (out <+: ·) (tmp <+: ·) where
  target := by
    rintro _ l ⟨f, rel, hrel, rfl⟩ hl
    rw [h.heading?_bundle hout f hrel, Option.some.injEq] at hl
    rw [← hl, List.append_assoc]
    exact List.prefix_append out _
  other := by
    rintro _ l ⟨rel, hrel, rfl⟩ hl
    rw [h.heading?_staged htmp hrel, Option.some.injEq] at hl
    rw [← hl]
    exact List.prefix_append tmp _

theorem AlteredAt.heading?_eq (c : d.AlteredAt out tmp Z) (h : d.LinkFree) (p : Path) :
    Z.heading? p = d.heading? p :=
  h.heading?_eq c.linkFree c.workDir p

theorem AlteredAt.clear (c : d.AlteredAt out tmp Z) (h : d.LinkFree) {p : Path} {loc : Location}
    (hp : d.heading? p = some loc) (hloc : out <+: loc ∨ tmp <+: loc) :
    d.AlteredAt out tmp (Z.cleared p) where
  linkFree := c.linkFree.of_keeps (cleared_keeps Z p)
  workDir := (cleared_keeps Z p).workDir.symm.trans c.workDir
  outside l hl := by
    rw [c.linkFree.get?_cleared_of_not_prefix ((c.heading?_eq h p).trans hp), c.outside l hl]
    exact fun hpre => hl (hloc.imp (·.trans hpre) (·.trans hpre))

theorem get?_erase_erase (hl : ¬ (out <+: l ∨ tmp <+: l)) :
    ((d.erase out).erase tmp).get? l = d.get? l := by
  by_cases hroot : l = []
  · rw [hroot, get?_root, get?_root]
  · rw [get?_erase hroot, if_neg, get?_erase hroot, if_neg]
    · exact fun h => hl (.inl (List.isPrefixOf_iff_prefix.1 h))
    · exact fun h => hl (.inr (List.isPrefixOf_iff_prefix.1 h))

theorem get?_erase_erase_within (hroot : l ≠ []) (hl : out <+: l ∨ tmp <+: l) :
    ((d.erase out).erase tmp).get? l = none := by
  rw [get?_erase hroot, get?_erase hroot]
  rcases hl with hl | hl
  · rw [List.isPrefixOf_iff_prefix.2 hl, if_pos rfl, ite_self]
  · rw [List.isPrefixOf_iff_prefix.2 hl, if_pos rfl]

/-- Such a tree is what is left without the two places, with files and directories in these. -/
theorem AlteredAt.grown (c : d.AlteredAt out tmp Z) :
    ((d.erase out).erase tmp).Grown (fun l => out <+: l ∨ tmp <+: l) Z := by
  refine ⟨c.workDir, fun {l e} he => ?_, fun {l e} he => ?_⟩
  · by_cases hl : l = []
    · subst hl
      rw [get?_root] at he ⊢
      exact ⟨e, he, .rfl, fun _ => rfl⟩
    · by_cases hout : out <+: l ∨ tmp <+: l
      · rw [get?_erase_erase_within hl hout] at he
        cases he
      · rw [get?_erase_erase hout] at he
        exact ⟨e, (c.outside l hout).trans he, .rfl, fun _ => rfl⟩
  · by_cases hl : l = []
    · subst hl
      rw [get?_root] at he ⊢
      exact .inl he
    · by_cases hout : out <+: l ∨ tmp <+: l
      · cases e with
        | file content x => exact .inr (.inr ⟨hout, rfl⟩)
        | directory => exact .inr (.inl rfl)
        | link target => exact absurd he (c.linkFree l target)
      · left
        rw [get?_erase_erase hout, ← c.outside l hout]
        exact he

namespace Arranged

/-- The inputs lie outside the output directory and the staging area. -/
theorem inputs (h : d.Arranged s src out tmp) :
    ((d.erase out).erase tmp).Inputs s src fun l => out <+: l ∨ tmp <+: l := by
  have hk : ((d.erase out).erase tmp).Keeps d := (erase_keeps _ tmp).trans (erase_keeps d out)
  have heads := h.linkFree.heading?_eq (h.linkFree.of_keeps hk) hk.workDir.symm
  refine ⟨h.linkFree.of_keeps hk, (heads _).trans h.srcHeads, fun hsrc => ?_, h.selected, ?_⟩
  · rw [get?_erase_erase h.sources] at hsrc
    exact h.source hsrc
  · intro p hp l hl
    exact h.templates p hp l ((heads p).symm.trans hl)

/-! ## Where things go -/

theorem not_below_tmp (h : d.Arranged s src out tmp) (hl : isBelow (out ++ [f.word]) l = true) :
    ¬ tmp <+: l := by
  intro ht
  rcases List.prefix_or_prefix_of_prefix (isBelow_iff.1 hl).1 ht with hp | hp
  · exact (h.apart f).1 hp
  · exact (h.apart f).2 hp

theorem heading?_formatDir (h : d.Arranged s src out tmp) (f : Format) :
    d.heading? (s.formatDir f) = some (out ++ [f.word]) :=
  h.linkFree.heading?_formatDir h.outHeads f

theorem heading?_target (h : d.Arranged s src out tmp) (f : Format) {rel : String}
    (hrel : Path.Plain rel) : d.heading? ((s.formatDir f).join rel) =
      some (out ++ [f.word] ++ Path.names (Text.cut '/' rel)) :=
  h.linkFree.heading?_bundle h.outHeads f hrel

theorem heading?_min (h : d.Arranged s src out tmp) (f : Format) {file : String}
    (hfile : Path.Simple file) :
    d.heading? ((s.formatDir f).join ("min/" ++ file)) = some (out ++ [f.word, "min", file]) := by
  rw [h.heading?_target f (Pipeline.plain_min hfile), Pipeline.names_min hfile, List.append_assoc]
  rfl

/-- Jobs go below the directories of the formats. All else goes to the staging area, but the joined
tests. -/
theorem zones (h : d.Arranged s src out tmp) (c : d.AlteredAt out tmp Z) :
    Z.Zones s.Bundle s.Besides (out <+: ·) (Aside out tmp) where
  target hp hl := by
    rw [c.heading?_eq h.linkFree] at hl
    exact (h.linkFree.bundle_zones h.outHeads h.tmpHeads).target hp hl
  other := by
    rintro _ l (hp | rfl) hl
    · rw [c.heading?_eq h.linkFree] at hl
      exact .inl ((h.linkFree.bundle_zones h.outHeads h.tmpHeads).other hp hl)
    · have htests : d.heading? ((s.formatDir .umd).join "min/tests.js") = some (out ++
          [Format.umd.word, "min", "tests.js"]) := h.heading?_min .umd Pipeline.simple_tests
      rw [c.heading?_eq h.linkFree, htests, Option.some.injEq] at hl
      exact .inr hl.symm

/-! ## What cleaning leaves -/

/-- Cleaning the output directory leaves the same below the directory of a format as cleaning this
directory and the staging area. -/
theorem leftovers (h : d.Arranged s src out tmp) (hopens : Z.Opens (s.formatDir f))
    (hl : isBelow (out ++ [f.word]) l = true) :
    (d.cleared s.outDir).get? l = ((d.cleared (s.formatDir f)).cleared s.tmpDir).get? l := by
  have htmp := h.not_below_tmp hl
  have hbelow := isBelow_of_append hl
  have hlinks : (d.cleared (s.formatDir f)).LinkFree := h.linkFree.of_keeps (cleared_keeps d _)
  have htmpHeads : (d.cleared (s.formatDir f)).heading? s.tmpDir = some tmp := by
    rw [h.linkFree.heading?_eq hlinks (cleared_keeps d _).workDir.symm]
    exact h.tmpHeads
  rw [hlinks.get?_cleared_of_not_prefix htmpHeads htmp]
  cases hx : d.exists? s.outDir with
  | false =>
    -- Then the directory of the format is not found either.
    have hx' : d.exists? (s.formatDir f) = false := by
      refine Bool.eq_false_iff.2 fun hf => ?_
      rw [exists?_of_join f.simple_word.relative h.named hf] at hx
      cases hx
    rw [cleared, hx, cleared, hx']
    rfl
  | true =>
    rw [h.linkFree.get?_cleared_below h.outHeads hx hbelow]
    cases hx' : d.exists? (s.formatDir f) with
    | true => rw [h.linkFree.get?_cleared_below (h.heading?_formatDir f) hx' hl]
    | false =>
      rw [cleared, hx', if_neg Bool.false_ne_true]
      refine (Option.eq_none_iff_forall_ne_some.2 fun e he => ?_).symm
      obtain ⟨l', e', b, hf⟩ := exists?_eq_true_iff.1 hx
      have hheads := (Grown.refl d fun _ => False).heading?_of_find hf
      rw [h.outHeads, Option.some.injEq] at hheads
      subst hheads
      have hout := (sound_of_find hf).entry_eq
      simp only at hout
      rw [get?_of_isBelow hbelow he] at hout
      cases hout
      have horigin : d.origin (s.formatDir f) = d.origin s.outDir :=
        d.origin_join s.outDir f.simple_word.relative
      have hopens' : d.Opens (s.outDir.join f.word) :=
        ⟨hopens.noNul, hopens.notEmpty, hopens.short, horigin ▸ (opens_of_find hf).origin⟩
      have hshort : ¬ maxName < f.word.utf8ByteSize := by cases f <;> decide
      have hfound := h.linkFree.exists?_join f.simple_word hshort hopens' hf (get?_of_isBelow hl he)
      rw [← Settings.formatDir, hx'] at hfound
      cases hfound

end Arranged

end Disk

end LocaleForge
