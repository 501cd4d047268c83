import LocaleForge.Proofs.Listing
import LocaleForge.Proofs.Reading
import LocaleForge.Proofs.Resolution

/-!
Names of locales and the files that they stand for. Where a pattern has one wildcard between plain texts, a
name stands for the one file that has it in the place of the wildcard.
-/

namespace LocaleForge

open Glob

variable {pattern name file front back : String} {ts : List Token} {d : Disk} {root : Path}

/-! ## Patterns of names -/

namespace Locale

variable {before after : List Char}

/-- A name takes the place of the last star. -/
theorem toList_patternFor (h : pattern.toList = before ++ '*' :: after) (hafter : '*' ∉ after) :
    (patternFor pattern name).toList = before ++ (name.toList ++ after) := by
  have hcut : Text.cut '*' pattern =
      (Text.pieces '*' before).map String.ofList ++ [String.ofList after] := by
    rw [Text.cut, h, Text.pieces_append_cons_sep, Text.pieces_of_notMem hafter, List.map_append]
    rfl
  have hpieces := Text.pieces_ne_nil '*' before
  rw [patternFor, hcut]
  split
  case h_1 hnil => simp at hnil
  case h_2 hone => simp [List.append_eq_singleton_iff, hpieces] at hone
  case h_3 =>
    simp [Text.join, Function.comp_def, Text.glue_pieces]

theorem patternFor_of_notMem (h : '*' ∉ pattern.toList) : patternFor pattern name = pattern := by
  rw [patternFor, Text.cut_of_notMem h]

end Locale

/-! ## One star between plain texts -/

namespace Glob

theorem parse_plain (h : ∀ c ∈ file.toList, Plain c) : parse file = .ok (file.toList.map .literal) := by
  have hadds := Adds.nil.literals h none []
  rw [List.append_nil, List.append_nil] at hadds
  exact parse_eq_ok_iff.2 hadds

theorem parse_star (hfront : ∀ c ∈ front.toList, Plain c) (hback : ∀ c ∈ back.toList, Plain c) :
    parse (front ++ "*" ++ back) =
      .ok (front.toList.map .literal ++ .many :: back.toList.map .literal) := by
  have hadds : Adds (back.toList ++ []) (back.toList.map .literal ++ []) := Adds.nil.literals hback
  rw [List.append_nil, List.append_nil] at hadds
  have alone : ∀ cs', back.toList ≠ '*' :: cs' := fun cs' heq =>
    (hback '*' (by rw [heq]; exact List.mem_cons_self)).2.1 rfl
  have hreads := (hadds.many alone).literals hfront none []
  rw [parse_eq_ok_iff]
  simpa using hreads

theorem accepts_plain_iff : accepts (pattern.toList.map .literal) file = true ↔ file = pattern := by
  rw [accepts, matchTokens_literals, String.toList_inj]

theorem accepts_star_iff :
    accepts (front.toList.map .literal ++ .many :: back.toList.map .literal) file = true ↔
      ∃ part, file = front ++ part ++ back ∧ separator ∉ part.toList := by
  rw [accepts, matchTokens_literals_append]
  constructor
  · rintro ⟨rest, hfile, h⟩
    obtain ⟨part, rest, rfl, hpart, h⟩ := matchTokens_many_cons.1 h
    obtain rfl := matchTokens_literals.1 h
    refine ⟨String.ofList part, ?_, by simpa using hpart⟩
    apply String.toList_injective
    simp [hfile]
  · rintro ⟨part, rfl, hpart⟩
    refine ⟨part.toList ++ back.toList, by simp, matchTokens_many_cons.2 ?_⟩
    exact ⟨part.toList, back.toList, rfl, hpart, matchTokens_literals.2 rfl⟩

end Glob

/-! ## Files by name -/

namespace Disk

/-- A relative path leads to a file below a directory: each of its segments is a name in the directory
before it, and none is a link. -/
def Holds (d : Disk) (root : Path) (file : String) : Prop :=
  ∃ loc b, d.find true root = .ok ⟨loc, some .directory, b⟩ ∧
    (d.content? (loc ++ Text.cut '/' file)).isSome = true

/-- A pattern finds all files below a directory that it accepts, each one once. -/
theorem exists_expand (h : parse pattern = .ok ts) :
    ∃ files, d.expand root pattern = .ok files ∧ files.Nodup ∧
      ∀ file, file ∈ files ↔ d.Holds root file ∧ accepts ts file = true := by
  cases hdir : d.isDirectory root with
  | true =>
    obtain ⟨loc, b, hfind⟩ := isDirectory_iff.1 hdir
    obtain ⟨files, hfiles, hlists⟩ := exists_lists hfind h
    refine ⟨files, hfiles, hlists.nodup, fun file => (hlists.mem_iff file).trans ⟨?_, ?_⟩⟩
    · rintro ⟨rel, hne, hcontent, rfl, haccepts⟩
      obtain ⟨e, hg, -⟩ := isSome_content?_iff.1 hcontent
      refine ⟨⟨loc, b, hfind, ?_⟩, haccepts⟩
      rwa [(inside_of_get? hg hne).cut]
    · rintro ⟨⟨loc', b', hfind', hcontent⟩, haccepts⟩
      cases hfind.symm.trans hfind'
      exact ⟨_, Text.cut_ne_nil '/' file, hcontent, (Text.join_cut '/' file).symm, haccepts⟩
  | false =>
    refine ⟨[], expand_of_not_isDirectory hdir, List.nodup_nil, fun file => ⟨?_, ?_⟩⟩
    · exact fun hmem => absurd hmem List.not_mem_nil
    · rintro ⟨⟨loc, b, hfind, -⟩, -⟩
      cases hdir.symm.trans (isDirectory_iff.2 ⟨loc, b, hfind⟩)

/-- The tree of the small project with one locale. -/
def oneLocale : Disk :=
  (small.set ["src", "l"] .directory).set ["src", "l", "fr.js"] (.file (Text.encode "f") false)

end Disk

namespace Context

open Build

variable {ctx : Context} {names : List String} {s : BuildState}

theorem matching_eq_ok_iff (usual : ctx.storage = .disk) {files : List String} :
    ctx.matching d name = .ok files ↔
      d.expand ctx.settings.srcDir (Locale.patternFor ctx.settings.localesPattern name) = .ok files := by
  rw [matching, usual]
  exact mapError_eq_ok_iff

/-- All files that the pattern accepts are discovered. -/
theorem exists_discovered (usual : ctx.storage = .disk)
    (h : parse ctx.settings.localesPattern = .ok ts) (s : BuildState) :
    ∃ all t, ctx.discoverLocales.Gives s all t ∧
      ∀ file, file ∈ all ↔ s.disk.Holds ctx.settings.srcDir file ∧ accepts ts file = true := by
  obtain ⟨all, hall, -, hmem⟩ := @Disk.exists_expand _ _ s.disk ctx.settings.srcDir h
  exact ⟨all, _, (expand_gives_iff usual).2 ⟨hall, rfl⟩, hmem⟩

theorem forall₂_iff_map {R : String → String → Prop} {P : String → Prop} {f : String → String}
    {files : List String} (h : ∀ n ∈ names, ∀ file, R n file ↔ P n ∧ file = f n) :
    List.Forall₂ R names files ↔ (∀ n ∈ names, P n) ∧ files = names.map f := by
  induction names generalizing files with
  | nil => simp
  | cons n names ih =>
    obtain ⟨hn, hnames⟩ := List.forall_mem_cons.1 h
    rw [List.forall₂_cons_left_iff]
    simp only [hn, ih hnames, List.forall_mem_cons, List.map_cons]
    constructor
    · rintro ⟨_, _, ⟨hP, rfl⟩, ⟨hPs, rfl⟩, rfl⟩
      exact ⟨⟨hP, hPs⟩, rfl⟩
    · rintro ⟨⟨hP, hPs⟩, rfl⟩
      exact ⟨_, _, ⟨hP, rfl⟩, ⟨hPs, rfl⟩, rfl⟩

/-- The failure of a name for which no file is there. -/
theorem message_localeNotFound (name : String) :
    (Failure.ofCause (.localeNotFound name)).message = "could not find locale: " ++ name := by
  simp [Failure.message, Failure.ofCause, Cause.text?]

section Plain

variable (usual : ctx.storage = .disk) (shape : ctx.settings.localesPattern = front ++ "*" ++ back)
  (hfront : ∀ c ∈ front.toList, Plain c) (hback : ∀ c ∈ back.toList, Plain c)

include usual shape hfront hback

/-- A name matches the one file that has it in the place of the star, if that is there. -/
theorem exists_matching (hname : ∀ c ∈ name.toList, Plain c) :
    ∃ files, ctx.matching d name = .ok files ∧ files.Nodup ∧
      ∀ file, file ∈ files ↔ d.Holds ctx.settings.srcDir file ∧ file = front ++ name ++ back := by
  have hstar : '*' ∉ back.toList := fun hmem => (hback _ hmem).2.1 rfl
  have hpattern : Locale.patternFor ctx.settings.localesPattern name = front ++ name ++ back := by
    have hlast : ctx.settings.localesPattern.toList = front.toList ++ '*' :: back.toList := by
      simp [shape]
    apply String.toList_injective
    rw [Locale.toList_patternFor hlast hstar]
    simp
  have hparse : parse (front ++ name ++ back) =
      .ok ((front ++ name ++ back).toList.map .literal) := by
    refine parse_plain fun c hc => ?_
    simp only [String.toList_append, List.mem_append] at hc
    rcases hc with (hc | hc) | hc
    · exact hfront c hc
    · exact hname c hc
    · exact hback c hc
  obtain ⟨files, hfiles, hnodup, hmem⟩ := @Disk.exists_expand _ _ d ctx.settings.srcDir hparse
  refine ⟨files, (matching_eq_ok_iff usual).2 (hpattern ▸ hfiles), hnodup, fun file => ?_⟩
  rw [hmem, accepts_plain_iff]

theorem resolved_of_holds (hname : ∀ c ∈ name.toList, Plain c)
    (h : d.Holds ctx.settings.srcDir (front ++ name ++ back)) :
    ctx.resolved d name = .ok (front ++ name ++ back) := by
  obtain ⟨files, hfiles, hnodup, hmem⟩ := exists_matching usual shape hfront hback hname (d := d)
  have hfound := (hmem _).2 ⟨h, rfl⟩
  rw [resolved_eq_ok_iff, hfiles]
  cases files with
  | nil => cases hfound
  | cons file files =>
    obtain ⟨-, rfl⟩ := (hmem file).1 List.mem_cons_self
    -- Another file would be the same one, and none is listed twice.
    cases files with
    | nil => rfl
    | cons other files =>
      obtain ⟨-, rfl⟩ := (hmem other).1 (by simp)
      simp at hnodup

theorem resolved_of_not_holds (hname : ∀ c ∈ name.toList, Plain c)
    (h : ¬ d.Holds ctx.settings.srcDir (front ++ name ++ back)) :
    ctx.resolved d name = .error (.ofCause (.localeNotFound name)) := by
  obtain ⟨files, hfiles, -, hmem⟩ := exists_matching usual shape hfront hback hname (d := d)
  obtain rfl : files = [] := by
    refine List.eq_nil_iff_forall_not_mem.2 fun file hfile => ?_
    obtain ⟨hholds, rfl⟩ := (hmem file).1 hfile
    exact h hholds
  rw [resolved, hfiles]

theorem resolved_eq_ok_iff_holds (hname : ∀ c ∈ name.toList, Plain c) :
    ctx.resolved d name = .ok file ↔
      d.Holds ctx.settings.srcDir (front ++ name ++ back) ∧ file = front ++ name ++ back := by
  by_cases h : d.Holds ctx.settings.srcDir (front ++ name ++ back)
  · rw [resolved_of_holds usual shape hfront hback hname h, Except.ok.injEq, eq_comm]
    simp [h]
  · rw [resolved_of_not_holds usual shape hfront hback hname h]
    simp [h]

/-- Names are resolved just if each of them has its file, and then to these files in their order. Otherwise
the first one that has none is told; no name is ambiguous. The files of names without a separator are
those that are discovered. -/
theorem resolveLocales_by_name (hnames : ∀ n ∈ names, ∀ c ∈ n.toList, Plain c) (s : BuildState) :
    ((∃ files t, (ctx.resolveLocales names).Gives s files t) ↔
      ∀ n ∈ names, s.disk.Holds ctx.settings.srcDir (front ++ n ++ back)) ∧
    (∀ files t, (ctx.resolveLocales names).Gives s files t →
      files = names.map (front ++ · ++ back)) ∧
    (∀ stop t, (ctx.resolveLocales names).run.run s = (.error stop, t) →
      ∃ before n after f, names = before ++ n :: after ∧
        (∀ m ∈ before, s.disk.Holds ctx.settings.srcDir (front ++ m ++ back)) ∧
        ¬ s.disk.Holds ctx.settings.srcDir (front ++ n ++ back) ∧ stop = .failed f ∧
        f = .ofCause (.localeNotFound n) ∧ f.message = "could not find locale: " ++ n) ∧
    ∃ all t, ctx.discoverLocales.Gives s all t ∧
      (∀ n ∈ names, '/' ∉ n.toList → s.disk.Holds ctx.settings.srcDir (front ++ n ++ back) →
        front ++ n ++ back ∈ all) ∧
      ∀ file ∈ all, ∃ part, file = front ++ part ++ back ∧ '/' ∉ part.toList ∧
        ((∀ c ∈ part.toList, Plain c) → ∃ u, (ctx.resolveLocales [part]).Gives s [file] u) := by
  have resolves {n : String} (hn : n ∈ names) {file : String} :
      ctx.resolved s.disk n = .ok file ↔
        s.disk.Holds ctx.settings.srcDir (front ++ n ++ back) ∧ file = front ++ n ++ back :=
    resolved_eq_ok_iff_holds usual shape hfront hback (hnames n hn)
  have gives {files : List String} {t : BuildState} : (ctx.resolveLocales names).Gives s files t ↔
      ((∀ n ∈ names, s.disk.Holds ctx.settings.srcDir (front ++ n ++ back)) ∧
        files = names.map (front ++ · ++ back)) ∧
        t = { s with log := s.log ++ names.map ctx.lookup } := by
    rw [resolveLocales_gives_iff, forall₂_iff_map fun n hn file => resolves hn]
  refine ⟨⟨?_, fun hall => ?_⟩, fun files t h => (gives.1 h).1.2, fun stop t h => ?_, ?_⟩
  · rintro ⟨files, t, h⟩
    exact (gives.1 h).1.1
  · exact ⟨_, _, gives.2 ⟨⟨hall, rfl⟩, rfl⟩⟩
  · obtain ⟨before, n, after, f, rfl, hbefore, hn, rfl, -⟩ := run_resolveLocales_error h
    have hmem : n ∈ before ++ n :: after := by simp
    have hmissing : ¬ s.disk.Holds ctx.settings.srcDir (front ++ n ++ back) := by
      intro hholds
      rw [(resolves hmem).2 ⟨hholds, rfl⟩] at hn
      cases hn
    rw [resolved_of_not_holds usual shape hfront hback (hnames n hmem) hmissing] at hn
    cases hn
    refine ⟨before, n, after, _, rfl, fun m hm => ?_, hmissing, rfl, rfl, message_localeNotFound n⟩
    obtain ⟨file, hfile⟩ := hbefore m hm
    exact ((resolves (List.mem_append_left _ hm)).1 (resolved_eq_ok_iff.2 hfile)).1
  · have hparse : parse ctx.settings.localesPattern = _ := shape ▸ parse_star hfront hback
    obtain ⟨all, t, hall, hmem⟩ := exists_discovered usual hparse s
    refine ⟨all, t, hall, fun n hn hsep hholds => ?_, fun file hfile => ?_⟩
    · exact (hmem _).2 ⟨hholds, accepts_star_iff.2 ⟨n, rfl, hsep⟩⟩
    · obtain ⟨hholds, haccepts⟩ := (hmem file).1 hfile
      obtain ⟨part, rfl, hsep⟩ := accepts_star_iff.1 haccepts
      refine ⟨part, rfl, hsep, fun hpart => ?_⟩
      have hresolved := resolved_of_holds usual shape hfront hback hpart hholds
      exact ⟨_, resolveLocales_gives_iff.2 ⟨.cons hresolved .nil, rfl⟩⟩

end Plain

theorem resolveLocales_by_name_small :
    let ctx := small .small "b"
    ctx.storage = .disk ∧ ctx.settings.localesPattern = "l/" ++ "*" ++ ".js" ∧
      (∀ c ∈ "l/".toList, Plain c) ∧ (∀ c ∈ ".js".toList, Plain c) ∧
      (∀ n ∈ ["fr", "fr"], ∀ c ∈ n.toList, Plain c) ∧
      ∃ t, (ctx.resolveLocales ["fr", "fr"]).Gives (.fresh .oneLocale) ["l/fr.js", "l/fr.js"] t := by
  intro ctx
  have hfront : ∀ c ∈ "l/".toList, Plain c := by simp [Plain]
  have hback : ∀ c ∈ ".js".toList, Plain c := by simp [Plain]
  have hnames : ∀ n ∈ ["fr", "fr"], ∀ c ∈ n.toList, Plain c := by simp [Plain]
  have hshape : ctx.settings.localesPattern = "l/" ++ "*" ++ ".js" := by decide
  have hholds : Disk.oneLocale.Holds Settings.small.srcDir "l/fr.js" :=
    ⟨["src"], _, rfl, by decide +kernel⟩
  refine ⟨rfl, hshape, hfront, hback, hnames, ?_⟩
  obtain ⟨succeeds, result, -⟩ :=
    resolveLocales_by_name rfl hshape hfront hback hnames (.fresh .oneLocale)
  obtain ⟨files, t, h⟩ := succeeds.2 (by
    intro n hn
    obtain rfl : n = "fr" := by simpa using hn
    exact hholds)
  obtain rfl := result files t h
  exact ⟨t, h⟩

/-- A segment that is a dot leads to the same file, but no file is found by it. -/
theorem dotted_name_not_resolved :
    let ctx := small .small "b"
    Disk.oneLocale.LinkFree ∧ (∀ c ∈ "./fr".toList, Plain c) ∧
      ctx.settings.localesPattern = "l/" ++ "*" ++ ".js" ∧
      (∃ content x b, Disk.oneLocale.find false (ctx.settings.srcDir.join ("l/" ++ "./fr" ++ ".js")) =
        .ok ⟨["src", "l", "fr.js"], some (.file content x), b⟩) ∧
      ∃ t, (ctx.resolveLocales ["./fr"]).run.run (.fresh .oneLocale) =
        (.error (.failed (.ofCause (.localeNotFound "./fr"))), t) := by
  intro ctx
  have hmatching : ctx.matching .oneLocale "./fr" = .ok [] := eq_ok_of_toOption (by decide +kernel)
  have hresolved : ctx.resolved .oneLocale "./fr" = .error (.ofCause (.localeNotFound "./fr")) := by
    rw [resolved, hmatching]
  have hfind : ∃ content x b, Disk.oneLocale.find false (Settings.small.srcDir.join "l/./fr.js") =
      .ok ⟨["src", "l", "fr.js"], some (.file content x), b⟩ := ⟨_, _, _, rfl⟩
  have hrun := ctx.run_resolveLocales_cons "./fr" [] (.fresh .oneLocale)
  rw [show (BuildState.fresh .oneLocale).disk = .oneLocale from rfl, hresolved] at hrun
  exact ⟨Disk.linkFree_of_entries (by decide +kernel), by simp [Plain], by decide, hfind, _, hrun⟩

end Context

end LocaleForge
