import LocaleForge.Proofs.NamedFiles

/-!
Names and patterns of any shape. A name takes the place of the last star of a pattern. Unless that star
stands in brackets, the files of names are among those that the pattern finds. If moreover it can be
told where the text for the star begins, different names stand for different files.
-/

namespace LocaleForge

namespace Glob

variable {word : Char → Prop} {fs mid ts us us' : List Token} {t : Token} {named : List Char → List Token}
  {cs name : List Char}

/-! ## The files of a name are files of the pattern -/

/-- A double star swallows whatever leads to one. -/
theorem matchTokens_deep_absorb (h : matchTokens (.deep :: us) cs = true)
    (leads : ∀ rest, matchTokens us rest = true → matchTokens (.deep :: us') rest = true) :
    matchTokens (.deep :: us') cs = true := by
  rcases matchTokens_deep_cons.1 h with hus | hus | ⟨front, rest, hcs, hus⟩
  · exact leads cs hus
  · rcases matchTokens_deep_cons.1 (leads [] hus) with hrest | hrest | ⟨front, rest, hnil, -⟩
    · exact matchTokens_deep_cons.2 (.inr (.inl hrest))
    · exact matchTokens_deep_cons.2 (.inr (.inl hrest))
    · simp at hnil
  · rcases matchTokens_deep_cons.1 (leads rest hus) with hrest | hrest | ⟨front', rest', hcs', hrest⟩
    · exact matchTokens_deep_cons.2 (.inr (.inr ⟨front, rest, hcs, hrest⟩))
    · exact matchTokens_deep_cons.2 (.inr (.inl hrest))
    · refine matchTokens_deep_cons.2 (.inr (.inr ⟨front ++ separator :: front', rest', ?_, hrest⟩))
      rw [hcs, hcs', List.append_assoc, List.cons_append]

theorem Replaced.accepts (h : Replaced fs ts named) (hname : separator ∉ name)
    (hm : matchTokens (named name) cs = true) : matchTokens ts cs = true := by
  cases h with
  | @many bs ones whole =>
    rw [whole]
    refine matchTokens_append_mono hm fun rest hrest => ?_
    obtain ⟨after, hcs, hafter⟩ := matchTokens_literals_append.1 hrest
    exact matchTokens_many_cons.2 ⟨name, after, hcs, hname, hafter⟩
  | @deep ds sep bs front whole ends =>
    have leads : ∀ rest, matchTokens (.many :: (name.map .literal ++ (sep ++ bs))) rest = true →
        matchTokens (.deep :: bs) rest = true := by
      intro rest hrest
      obtain ⟨front, mid, rfl, -, hmid⟩ := matchTokens_many_cons.1 hrest
      obtain ⟨after, rfl, hafter⟩ := matchTokens_literals_append.1 hmid
      rcases ends with ⟨-, rfl⟩ | rfl
      · exact matchTokens_deep_cons.2 (.inr (.inl rfl))
      · obtain ⟨last, rfl, hlast⟩ := matchTokens_literal_cons.1 hafter
        exact matchTokens_deep_cons.2 (.inr (.inr ⟨front ++ name, last, by simp, hlast⟩))
    rw [whole]
    beta_reduce at hm
    unfold addDeep
    split
    -- The double star joins one before it, which then takes over.
    case h_1 t ds =>
      rw [List.reverse_cons, List.append_assoc] at hm ⊢
      exact matchTokens_append_mono hm fun rest hrest => matchTokens_deep_absorb hrest leads
    case h_2 =>
      rw [List.reverse_cons, List.append_assoc]
      exact matchTokens_append_mono hm leads

/-! ## Where the text for a star begins -/

/-- Tokens by which it can be told where the text behind them begins, if `mid` stands between: there are
none, or the last one takes only characters that are no part of a word and that nothing in between
takes. The separator that ends a double star is such a character. -/
inductive Anchored (word : Char → Prop) (mid : List Token) : List Token → Prop
  | start : Anchored word mid []
  | behind {ts : List Token} {t : Token} (one : t.One)
      (apart : ∀ x, t.takes x = true → ¬ word x ∧ ∀ u ∈ mid, u.takes x = false) :
      Anchored word mid (ts ++ [t])
  | deep {ts : List Token} (apart : ∀ u ∈ mid, u.takes separator = false) :
      Anchored word mid (ts ++ [.deep])

/-- It can be told where the text for a star behind the tokens begins. -/
def Tells (word : Char → Prop) (fs : List Token) : Prop :=
  ∃ front mid, fs = front ++ mid ∧ (∀ t ∈ mid, t.One) ∧ Anchored word mid front

theorem Tells.last_ne_many (h : Tells word fs) : fs.getLast? ≠ some .many := by
  obtain ⟨front, mid, rfl, hmid, anchored⟩ := h
  intro hlast
  rcases List.eq_nil_or_concat mid with rfl | ⟨mid, t, rfl⟩
  · rw [List.append_nil] at hlast
    cases anchored with
    | start => cases hlast
    | behind one =>
      obtain rfl : _ = Token.many := by simpa using hlast
      exact one
    | deep => simp at hlast
  · obtain rfl : t = .many := by simpa using hlast
    exact hmid .many (by simp)

theorem AtStart.split {done : List Token} (h : AtStart done) (hne : matchTokens us [] = false)
    (hm : matchTokens (done.reverse ++ us) cs = true) :
    ∃ front rest, cs = front ++ rest ∧ matchTokens us rest = true ∧
      (front = [] ∨ ∃ front', front = front' ++ [separator]) := by
  induction h generalizing us with
  | nil => exact ⟨[], cs, rfl, hm, .inl rfl⟩
  | @behind done =>
    rw [List.reverse_cons, List.append_assoc] at hm
    obtain ⟨rest, ⟨front, rfl⟩, hrest⟩ := suffix_of_matchTokens hm
    obtain ⟨after, rfl, hafter⟩ := matchTokens_literal_cons.1 hrest
    exact ⟨front ++ [separator], after, by simp, hafter, .inr ⟨front, rfl⟩⟩
  | @deep done _ ih =>
    rw [List.reverse_cons, List.append_assoc] at hm
    have hne' : matchTokens (.deep :: us) [] = false := by
      simp [matchTokens, behindSegment, hne]
    obtain ⟨front, rest, rfl, hrest, hfront⟩ := ih hne' hm
    rcases matchTokens_deep_cons.1 hrest with hus | hus | ⟨front', after, rfl, hus⟩
    · exact ⟨front, rest, rfl, hus, hfront⟩
    · rw [hne] at hus
      cases hus
    · exact ⟨front ++ front' ++ [separator], after, by simp, hus, .inr ⟨front ++ front', rfl⟩⟩

/-- A front of a text that is empty or ends with a character which is no part of a word and which none of
the tokens takes. -/
def Apart (word : Char → Prop) (mid : List Token) (front : List Char) : Prop :=
  front = [] ∨ ∃ front' a, front = front' ++ [a] ∧ ¬ word a ∧ ∀ u ∈ mid, u.takes a = false

/-- What the tokens match ends with the text for the tokens in between, right behind a front that tells
it apart. -/
theorem Tells.split (h : Tells word fs) (placed : Placed fs.reverse) (hsep : ¬ word separator) :
    ∃ mid : List Token, ∀ us cs, matchTokens us [] = false → matchTokens (fs ++ us) cs = true →
      ∃ front text rest, cs = front ++ (text ++ rest) ∧ Spells mid text ∧ matchTokens us rest = true ∧
        Apart word mid front := by
  obtain ⟨front, mid, rfl, hmid, anchored⟩ := h
  refine ⟨mid, fun us cs hne hm => ?_⟩
  rw [List.append_assoc] at hm
  cases anchored with
  | start =>
    obtain ⟨text, rest, rfl, htext, hrest⟩ := (matchTokens_ones_append hmid).1 hm
    exact ⟨[], text, rest, rfl, htext, hrest, .inl rfl⟩
  | behind one apart =>
    rw [List.append_assoc] at hm
    obtain ⟨after, ⟨before, rfl⟩, hafter⟩ := suffix_of_matchTokens hm
    obtain ⟨a, more, rfl, ha, hmore⟩ := (matchTokens_one_cons one).1 hafter
    obtain ⟨text, rest, rfl, htext, hrest⟩ := (matchTokens_ones_append hmid).1 hmore
    exact ⟨before ++ [a], text, rest, by simp, htext, hrest, .inr ⟨before, a, rfl, apart a ha⟩⟩
  | @deep ts apart =>
    have hplaced : Placed (mid.reverse ++ .deep :: ts.reverse) := by simpa using placed
    have hstart : AtStart (.deep :: ts.reverse) := .deep hplaced.atStart
    have hnone : matchTokens (mid ++ us) [] = false := by
      refine Bool.eq_false_iff.2 fun hnil => ?_
      obtain ⟨text, rest, happend, -, hrest⟩ := (matchTokens_ones_append hmid).1 hnil
      obtain ⟨rfl, rfl⟩ := List.append_eq_nil_iff.1 happend.symm
      rw [hne] at hrest
      cases hrest
    obtain ⟨front, after, rfl, hafter, hfront⟩ := hstart.split hnone (by simpa using hm)
    obtain ⟨text, rest, rfl, htext, hrest⟩ := (matchTokens_ones_append hmid).1 hafter
    refine ⟨front, text, rest, rfl, htext, hrest, hfront.imp_right ?_⟩
    rintro ⟨front', rfl⟩
    exact ⟨front', separator, rfl, hsep, apart⟩

theorem Spells.notMem {text : List Char} {a : Char} (h : Spells mid text)
    (apart : ∀ u ∈ mid, u.takes a = false) : a ∉ text := by
  intro ha
  obtain ⟨t, ht, htakes⟩ := exists_of_forall₂ h ha
  rw [apart t ht] at htakes
  cases htakes

/-- A word behind the text for the tokens does not begin within the front of another one. -/
theorem Apart.length_le {x₁ x₂ u₁ u₂ n₁ n₂ : List Char} (apart : Apart word mid x₁)
    (h : x₁ ++ (u₁ ++ n₁) = x₂ ++ (u₂ ++ n₂)) (hu₁ : Spells mid u₁) (hu₂ : Spells mid u₂)
    (hn₂ : ∀ c ∈ n₂, word c) : n₂.length ≤ n₁.length := by
  have hu : u₁.length = u₂.length := hu₁.length_eq.symm.trans hu₂.length_eq
  have hlength := congrArg List.length h
  simp only [List.length_append] at hlength
  rcases apart with rfl | ⟨x, a, rfl, ha, hmid⟩
  · rw [List.length_nil] at hlength
    omega
  · by_contra hlt
    rw [List.length_append, List.length_singleton] at hlength
    -- Otherwise the last character of the front would stand in the other word, or before it.
    rw [List.append_assoc] at h
    have hx₂ : x₂ <+: x ++ ([a] ++ (u₁ ++ n₁)) := h ▸ List.prefix_append _ _
    obtain ⟨z, rfl⟩ := List.prefix_of_prefix_length_le hx₂ (List.prefix_append _ _) (by omega)
    rw [List.append_assoc, List.append_cancel_left_eq] at h
    have hmem : a ∈ u₂ ++ n₂ := by
      rw [← h]
      simp
    rcases List.mem_append.1 hmem with hmem | hmem
    · exact hu₂.notMem hmid hmem
    · exact ha (hn₂ a hmem)

/-- Where the text for the star is told, a file is one of a single name. -/
theorem Replaced.name_eq (h : Replaced fs ts named) (tells : Tells word fs) (placed : Placed fs.reverse)
    (hsep : ¬ word separator) {n₁ n₂ : List Char} (hne₁ : n₁ ≠ []) (hne₂ : n₂ ≠ [])
    (hword₁ : ∀ c ∈ n₁, word c) (hword₂ : ∀ c ∈ n₂, word c)
    (hm₁ : matchTokens (named n₁) cs = true) (hm₂ : matchTokens (named n₂) cs = true) : n₁ = n₂ := by
  cases h with
  | deep front => exact absurd (by simp [front]) tells.last_ne_many
  | @many bs ones =>
    obtain ⟨mid, hsplit⟩ := tells.split placed hsep
    have cut {name : List Char} (hne : name ≠ [])
        (hm : matchTokens (fs ++ (name.map .literal ++ bs)) cs = true) :
        ∃ front text rest, cs = front ++ (text ++ name) ++ rest ∧ Apart word mid front ∧
          Spells mid text ∧ Spells bs rest := by
      have hnil : matchTokens (name.map .literal ++ bs) [] = false := by
        refine Bool.eq_false_iff.2 fun hnil => hne ?_
        obtain ⟨rest, happend, -⟩ := matchTokens_literals_append.1 hnil
        exact (List.append_eq_nil_iff.1 happend.symm).1
      obtain ⟨front, text, after, rfl, htext, hafter, hfront⟩ := hsplit _ cs hnil hm
      obtain ⟨rest, rfl, hrest⟩ := matchTokens_literals_append.1 hafter
      exact ⟨front, text, rest, by simp, hfront, htext, (matchTokens_ones ones).1 hrest⟩
    obtain ⟨x₁, u₁, v₁, hcs₁, hx₁, hu₁, hv₁⟩ := cut hne₁ hm₁
    obtain ⟨x₂, u₂, v₂, hcs₂, hx₂, hu₂, hv₂⟩ := cut hne₂ hm₂
    -- The ends behind the names are equally long.
    have hv : v₁.length = v₂.length := hv₁.length_eq.symm.trans hv₂.length_eq
    obtain ⟨h, -⟩ := List.append_inj' (hcs₁.symm.trans hcs₂) hv
    have hlength : n₁.length = n₂.length :=
      Nat.le_antisymm (hx₂.length_le h.symm hu₂ hu₁ hword₁) (hx₁.length_le h hu₁ hu₂ hword₂)
    rw [← List.append_assoc, ← List.append_assoc] at h
    exact (List.append_inj' h hlength).2

end Glob

/-! ## Patterns -/

namespace Locale

open Glob

variable {pattern : String} {fs ts : List Token}

/-- Letters, digits, hyphens and underscores. -/
def NameChar (c : Char) : Prop :=
  c.isAlphanum = true ∨ c = '-' ∨ c = '_'

theorem NameChar.plain {c : Char} (h : NameChar c) : Plain c ∧ c ≠ '/' := by
  have apart : ∀ x : Char, x.isAlphanum = false → x ≠ '-' → x ≠ '_' → c ≠ x := by
    rintro _ hx hhyphen hunderscore rfl
    rcases h with h | rfl | rfl
    · rw [hx] at h
      cases h
    · exact hhyphen rfl
    · exact hunderscore rfl
  exact ⟨⟨apart '?' (by decide) (by decide) (by decide), apart '*' (by decide) (by decide) (by decide),
    apart '[' (by decide) (by decide) (by decide)⟩, apart '/' (by decide) (by decide) (by decide)⟩

/-- The last star of a pattern stands outside brackets: what is in front of it is a pattern by itself, with
these tokens. -/
def LastStar (pattern : String) (fs : List Token) : Prop :=
  ∃ before after, pattern.toList = before ++ '*' :: after ∧ '*' ∉ after ∧
    parse (String.ofList before) = .ok fs

/-- No star stands in brackets as the last one of a pattern. -/
def StarOutside (pattern : String) : Prop :=
  '*' ∉ pattern.toList ∨ ∃ fs, LastStar pattern fs

/-- A pattern has a star, and it can be told where the text for the last one begins. -/
def Telling (word : Char → Prop) (pattern : String) : Prop :=
  ∃ fs, LastStar pattern fs ∧ Tells word fs

/-- The tokens of the patterns of names. -/
theorem LastStar.exists_replaced (h : LastStar pattern fs) (hts : parse pattern = .ok ts) :
    ∃ named, Replaced fs ts named ∧ Placed fs.reverse ∧
      ∀ name : String, (∀ c ∈ name.toList, Plain c) →
        parse (patternFor pattern name) = .ok (named name.toList) := by
  obtain ⟨before, after, hpattern, hafter, hfs⟩ := h
  rw [parse_eq_ok_iff, String.toList_ofList] at hfs
  rw [parse_eq_ok_iff, hpattern] at hts
  obtain ⟨named, hnamed, hreads⟩ := hfs.replace hts hafter
  refine ⟨named, hnamed, hfs.placed (fun _ => .nil) .nil, fun name hname => ?_⟩
  rw [parse_eq_ok_iff, toList_patternFor hpattern hafter]
  exact hreads _ hname

end Locale

namespace Disk

/-- The tree of the small project with locales in two directories. -/
def nested : Disk :=
  (oneLocale.set ["src", "l", "x"] .directory).set ["src", "l", "x", "de.js"]
    (.file (Text.encode "d") false)

/-- A tree whose source directory has a single file. -/
def lone : Disk :=
  ((empty.set ["src"] .directory).set ["src", "l"] .directory).set ["src", "l", "ffr"]
    (.file (Text.encode "f") false)

end Disk

namespace Context

open Build Glob

variable {ctx : Context} {name file : String} {names files : List String} {s t : BuildState} {d : Disk}
  {ts : List Token} {word : Char → Prop}

/-- A name stands for a file that its pattern accepts. -/
theorem holds_of_resolved (usual : ctx.storage = .disk)
    (hparse : parse (Locale.patternFor ctx.settings.localesPattern name) = .ok ts)
    (h : ctx.resolved d name = .ok file) :
    d.Holds ctx.settings.srcDir file ∧ accepts ts file = true := by
  obtain ⟨files, hfiles, -, hmem⟩ := @Disk.exists_expand _ _ d ctx.settings.srcDir hparse
  cases hfiles.symm.trans ((matching_eq_ok_iff usual).1 (resolved_eq_ok_iff.1 h))
  exact (hmem file).1 List.mem_cons_self

/-- Each resolved file is discovered unless the last star stands in brackets. Different names that are not
empty stand for different files if it can be told where the text for the last star begins. -/
theorem resolveLocales_discovered_and_told (usual : ctx.storage = .disk)
    (accepted : parse ctx.settings.localesPattern = .ok ts)
    (hword : ∀ c, word c → Plain c ∧ c ≠ '/') (hnames : ∀ n ∈ names, ∀ c ∈ n.toList, word c)
    (h : (ctx.resolveLocales names).Gives s files t) :
    (Locale.StarOutside ctx.settings.localesPattern →
      ∃ all u, ctx.discoverLocales.Gives s all u ∧ ∀ file ∈ files, file ∈ all) ∧
    (Locale.Telling word ctx.settings.localesPattern →
      ∀ n₁ f₁ n₂ f₂, (n₁, f₁) ∈ names.zip files → (n₂, f₂) ∈ names.zip files →
        n₁ ≠ "" → n₂ ≠ "" → n₁ ≠ n₂ → f₁ ≠ f₂) := by
  obtain ⟨hfiles, -⟩ := resolveLocales_gives_iff.1 h
  have hplain : ∀ n ∈ names, ∀ c ∈ n.toList, Plain c := fun n hn c hc =>
    (hword c (hnames n hn c hc)).1
  have hsep : ∀ n ∈ names, separator ∉ n.toList := fun n hn hmem =>
    (hword _ (hnames n hn _ hmem)).2 rfl
  constructor
  · intro outside
    obtain ⟨all, u, hall, hmem⟩ := exists_discovered usual accepted s
    refine ⟨all, u, hall, fun file hfile => ?_⟩
    obtain ⟨n, hn, hresolved⟩ := exists_of_forall₂ hfiles hfile
    rw [hmem]
    rcases outside with hnone | ⟨fs, hlast⟩
    · refine holds_of_resolved usual ?_ hresolved
      rw [Locale.patternFor_of_notMem hnone]
      exact accepted
    · obtain ⟨named, hnamed, -, hparse⟩ := hlast.exists_replaced accepted
      obtain ⟨hholds, haccepts⟩ := holds_of_resolved usual (hparse n (hplain n hn)) hresolved
      exact ⟨hholds, hnamed.accepts (hsep n hn) haccepts⟩
  · rintro ⟨fs, hlast, tells⟩ n₁ f₁ n₂ f₂ h₁ h₂ hne₁ hne₂ hne rfl
    obtain ⟨named, hnamed, placed, hparse⟩ := hlast.exists_replaced accepted
    have hn₁ := (List.of_mem_zip h₁).1
    have hn₂ := (List.of_mem_zip h₂).1
    have accepts₁ :=
      (holds_of_resolved usual (hparse n₁ (hplain n₁ hn₁)) (List.forall₂_zip hfiles h₁)).2
    have accepts₂ :=
      (holds_of_resolved usual (hparse n₂ (hplain n₂ hn₂)) (List.forall₂_zip hfiles h₂)).2
    refine hne (String.toList_injective ?_)
    exact hnamed.name_eq tells placed (fun hslash => (hword _ hslash).2 rfl)
      (by simpa using hne₁) (by simpa using hne₂) (hnames n₁ hn₁) (hnames n₂ hn₂) accepts₁ accepts₂

theorem resolveLocales_discovered_and_told_small :
    let ctx := small { Settings.small with localesPattern := "l/**/*.js" } "b"
    ctx.storage = .disk ∧ (∃ ts, parse ctx.settings.localesPattern = .ok ts) ∧
      (∀ c, Locale.NameChar c → Plain c ∧ c ≠ '/') ∧ (∀ n ∈ ["de", "fr"], ∀ c ∈ n.toList, Locale.NameChar c) ∧
      ∃ t, (ctx.resolveLocales ["de", "fr"]).Gives (.fresh .nested) ["l/x/de.js", "l/fr.js"] t ∧
        (∃ all u, ctx.discoverLocales.Gives (.fresh .nested) all u ∧
          ∀ file ∈ ["l/x/de.js", "l/fr.js"], file ∈ all) ∧ "l/x/de.js" ≠ "l/fr.js" := by
  intro ctx
  have accepted : parse ctx.settings.localesPattern =
      .ok ("l/".toList.map .literal ++ .deep :: .many :: ".js".toList.map .literal) := by decide
  have hnames : ∀ n ∈ ["de", "fr"], ∀ c ∈ n.toList, Locale.NameChar c := by
    simp [Locale.NameChar]
  obtain ⟨t, h⟩ : ∃ t, (ctx.resolveLocales ["de", "fr"]).Gives (.fresh .nested)
      ["l/x/de.js", "l/fr.js"] t := ⟨_, gives_of_run (by decide +kernel)⟩
  have hlast : Locale.LastStar ctx.settings.localesPattern _ :=
    ⟨"l/**/".toList, ".js".toList, by decide, by decide, rfl⟩
  obtain ⟨discovered, told⟩ :=
    resolveLocales_discovered_and_told rfl accepted (fun _ => Locale.NameChar.plain) hnames h
  refine ⟨rfl, ⟨_, accepted⟩, fun _ => Locale.NameChar.plain, hnames, t, h, discovered (.inr ⟨_, hlast⟩), ?_⟩
  have htells : Tells Locale.NameChar ("l/".toList.map .literal ++ [.deep]) :=
    ⟨_, [], (List.append_nil _).symm, nofun, .deep nofun⟩
  exact told ⟨_, hlast, htells⟩ "de" _ "fr" _ (by simp) (by simp) (by decide) (by decide) (by decide)

/-- The files that names stand for in the tree with a single file. -/
def loneFiles (pattern : String) (names : List String) : Option (List String) :=
  (((small { Settings.small with localesPattern := pattern } "b").resolveLocales names).run.run
    (.fresh .lone)).1.toOption

/-- Where the pattern has no star, or the last one stands in brackets, is half of a double star, or follows
another star that its text cannot be told from, several names stand for the one file; so does an empty
name behind a double star. In brackets it is not even discovered. -/
theorem names_confused :
    (∀ n ∈ ["r", "fr", "f", "xf", "", "ffr"], ∀ c ∈ n.toList, Locale.NameChar c) ∧
    loneFiles "l/ffr" ["r", "fr"] = some ["l/ffr", "l/ffr"] ∧
    loneFiles "l/[*]fr" ["f", "xf"] = some ["l/ffr", "l/ffr"] ∧
    loneFiles "l/**" ["r", "fr"] = some ["l/ffr", "l/ffr"] ∧
    loneFiles "l/*f*" ["r", "fr"] = some ["l/ffr", "l/ffr"] ∧
    loneFiles "**/*" ["", "ffr"] = some ["l/ffr", "l/ffr"] ∧
    ((small { Settings.small with localesPattern := "l/[*]fr" } "b").discoverLocales.run.run
      (.fresh .lone)).1.toOption = some [] :=
  ⟨by simp [Locale.NameChar], by decide +kernel⟩

end Context

end LocaleForge
