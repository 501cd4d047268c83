import LocaleForge.Build.Staging
import LocaleForge.Build.TestBundle

/-!
Patterns that begin or end with literal text. Such a pattern matches only paths that begin or end
alike. Where nothing but a double star and a star stands between, it matches all of these.
-/

namespace LocaleForge.Glob

/-- A character that stands for itself in a pattern. -/
def Plain (c : Char) : Prop :=
  c ≠ '?' ∧ c ≠ '*' ∧ c ≠ '['

/-- A character that stands for itself, separates nothing and closes no set. -/
def Inner (c : Char) : Prop :=
  Plain c ∧ c ≠ ']' ∧ c ≠ separator

variable {n position : Nat} {before : Option Char} {done ts us : List Token} {t : Token} {c x : Char}
  {cs front back rest : List Char}

/-! ## Tokens -/

theorem tokens_nil : tokens n position before done [] = .ok done.reverse := by
  cases n <;> rfl

theorem tokens_plain (h : Plain c) : tokens (n + 1) position before done (c :: cs) =
    tokens n (position + 1) (some c) (.literal c :: done) cs := by
  obtain ⟨hsingle, hstar, hset⟩ := h
  rw [tokens]
  · exact hsingle
  · exact fun _ he => absurd he hstar
  · exact fun _ he => absurd he hstar
  · exact hstar
  · exact hset

/-- Plain characters at the front are read as literals. -/
theorem tokens_front (h : ∀ c ∈ front, Plain c) : ∃ position' before',
    tokens (n + front.length) position before done (front ++ cs) =
      tokens n position' before' ((front.map .literal).reverse ++ done) cs := by
  induction front generalizing position before done with
  | nil => exact ⟨position, before, rfl⟩
  | cons c front ih =>
    obtain ⟨hc, hfront⟩ := List.forall_mem_cons.1 h
    obtain ⟨position', before', hrest⟩ := @ih (position + 1) (some c) (.literal c :: done) hfront
    refine ⟨position', before', ?_⟩
    rw [List.length_cons, ← Nat.add_assoc, List.cons_append, tokens_plain hc, hrest, List.map_cons,
      List.reverse_cons, List.append_assoc]
    rfl

theorem suffix_addDeep (done : List Token) : done <:+ addDeep done := by
  unfold addDeep
  split
  · exact List.suffix_rfl
  · exact List.suffix_cons _ _

/-- What has been read stays read. -/
theorem reverse_prefix_of_tokens (h : tokens n position before done cs = .ok ts) :
    done.reverse <+: ts := by
  have grows : ∀ {t : Token} {done : List Token}, (t :: done).reverse <+: ts → done.reverse <+: ts :=
    fun hts => (List.reverse_prefix.2 (List.suffix_cons _ _)).trans hts
  fun_induction tokens n position before done cs with
  | case1 => cases h; exact List.prefix_rfl
  | case2 => cases h; exact List.prefix_rfl
  | case5 done => cases h; exact List.reverse_prefix.2 (suffix_addDeep _)
  | case6 _ _ _ _ _ _ _ ih => exact (List.reverse_prefix.2 (suffix_addDeep _)).trans (ih h)
  | case3 _ _ _ _ _ ih => exact grows (ih h)
  | case9 _ _ _ _ _ _ _ ih => exact grows (ih h)
  | case10 _ _ _ _ _ _ _ _ ih => exact grows (ih h)
  | case12 _ _ _ _ _ _ _ _ _ _ _ ih => exact grows (ih h)
  | case4 | case7 | case8 | case11 => cases h

/-- A suffix without some character lies behind each occurrence of it. -/
theorem suffix_behind (front : List Char) (hx : x ∉ back) (h : back <:+ front ++ x :: rest) :
    back <:+ rest := by
  rcases List.suffix_or_suffix_of_suffix h (List.suffix_append front (x :: rest)) with hs | hs
  · rcases List.suffix_cons_iff.1 hs with rfl | hs
    · exact absurd List.mem_cons_self hx
    · exact hs
  · exact absurd (hs.subset List.mem_cons_self) hx

/-- The characters of a set are those up to the closing bracket. -/
theorem closes_iff {inner : List Char} : (cs.takeWhile (· != ']') = inner ∧ cs.drop inner.length = ']' :: rest) ↔
    ']' ∉ inner ∧ cs = inner ++ ']' :: rest := by
  constructor
  · rintro ⟨rfl, hdrop⟩
    refine ⟨fun hmem => ?_, ?_⟩
    · have hall := List.all_eq_true.1 (List.all_takeWhile (l := cs) (p := (· != ']'))) _ hmem
      simp at hall
    · obtain ⟨tail, htail⟩ := List.takeWhile_prefix (l := cs) (· != ']')
      rw [← hdrop]
      exact (List.prefix_iff_eq_append.1 ⟨tail, htail⟩).symm
  · rintro ⟨hinner, rfl⟩
    have hopen : ∀ c ∈ inner, (c != ']') = true := fun c hc =>
      bne_iff_ne.2 fun heq => hinner (heq ▸ hc)
    rw [List.takeWhile_append_of_pos hopen, List.drop_left]
    simp

/-- A set: a first character, others up to the closing bracket, and before them an exclamation mark if the
set tells what is left out. -/
theorem set?_eq_some_iff : set? cs = some (t, rest) ↔ ∃ c inner, ']' ∉ inner ∧
    (cs = '!' :: c :: (inner ++ ']' :: rest) ∧ t = .noneOf (ranges (c :: inner)) ∨
      c ≠ '!' ∧ cs = c :: (inner ++ ']' :: rest) ∧ t = .oneOf (ranges (c :: inner))) := by
  constructor
  · intro h
    rw [set?.eq_def] at h
    split at h
    case h_1 c cs =>
      simp only at h
      split at h
      case h_1 hdrop =>
        cases h
        obtain ⟨hinner, hcs⟩ := closes_iff.1 ⟨rfl, hdrop⟩
        exact ⟨c, _, hinner, .inl ⟨congrArg ('!' :: c :: ·) hcs, rfl⟩⟩
      case h_2 => cases h
    case h_2 c cs _ =>
      split at h
      case isTrue => cases h
      case isFalse hc =>
        simp only at h
        split at h
        case h_1 hdrop =>
          cases h
          obtain ⟨hinner, hcs⟩ := closes_iff.1 ⟨rfl, hdrop⟩
          exact ⟨c, _, hinner, .inr ⟨hc, congrArg (c :: ·) hcs, rfl⟩⟩
        case h_2 => cases h
    case h_3 => cases h
  · rintro ⟨c, inner, hinner, hcs⟩
    obtain ⟨htake, hdrop⟩ := closes_iff.2 ⟨hinner, Eq.refl (inner ++ ']' :: rest)⟩
    rcases hcs with ⟨rfl, rfl⟩ | ⟨hc, rfl, rfl⟩
    · simp only [set?, htake, hdrop]
    · rw [set?, if_neg hc]
      · simp only [htake, hdrop]
      · exact fun _ _ hbang => absurd hbang hc

theorem bracket_of_set? (h : set? cs = some (t, rest)) : ∃ front, cs = front ++ ']' :: rest := by
  obtain ⟨c, inner, -, ⟨rfl, -⟩ | ⟨-, rfl, -⟩⟩ := set?_eq_some_iff.1 h
  · exact ⟨'!' :: c :: inner, rfl⟩
  · exact ⟨c :: inner, rfl⟩

/-- Inner characters at the end are read as literals. -/
theorem suffix_of_tokens (hback : ∀ c ∈ back, Inner c) (hn : cs.length ≤ n) (hcs : back <:+ cs)
    (h : tokens n position before done cs = .ok ts) : back.map .literal <:+ ts := by
  have notMem : ∀ {x : Char}, ¬ Inner x → x ∉ back := fun hx hmem => hx (hback _ hmem)
  have hquery : '?' ∉ back := notMem fun h => h.1.1 rfl
  have hstar : '*' ∉ back := notMem fun h => h.1.2.1 rfl
  have hset : ']' ∉ back := notMem fun h => h.2.1 rfl
  have hsep : separator ∉ back := notMem fun h => h.2.2 rfl
  fun_induction tokens n position before done cs with
  | case1 =>
    obtain rfl := List.eq_nil_of_length_eq_zero (Nat.le_zero.1 hn)
    obtain rfl := List.suffix_nil.1 hcs
    exact List.nil_suffix
  | case2 =>
    obtain rfl := List.suffix_nil.1 hcs
    exact List.nil_suffix
  | case3 _ _ _ _ _ ih =>
    exact ih (Nat.le_of_succ_le_succ hn) (suffix_behind [] hquery hcs) h
  | case5 =>
    obtain rfl := List.suffix_nil.1 (suffix_behind ['*'] hstar hcs)
    exact List.nil_suffix
  | case6 _ _ _ _ _ _ _ ih =>
    refine ih ?_ (suffix_behind ['*', '*'] hsep hcs) h
    simp only [List.length_cons] at hn
    omega
  | case9 _ _ _ _ _ _ _ ih =>
    exact ih (Nat.le_of_succ_le_succ hn) (suffix_behind [] hstar hcs) h
  | case10 _ _ _ _ rest _ rest' hrest ih =>
    obtain ⟨front, rfl⟩ := bracket_of_set? hrest
    refine ih ?_ (suffix_behind ('[' :: front) hset hcs) h
    simp only [List.length_cons, List.length_append] at hn
    omega
  | case12 position _ done n c rest _ _ _ _ _ ih =>
    have hrest : rest.length ≤ n := Nat.le_of_succ_le_succ hn
    rcases List.suffix_cons_iff.1 hcs with rfl | hcs
    · have hplain : ∀ x ∈ rest, Plain x := fun x hx => (hback x (List.mem_cons_of_mem _ hx)).1
      obtain ⟨position', before', hall⟩ := @tokens_front (n - rest.length) (position + 1) (some c)
        (.literal c :: done) [] rest hplain
      rw [Nat.sub_add_cancel hrest, List.append_nil, h, tokens_nil] at hall
      cases hall
      simp
    · exact ih hrest hcs h
  | case4 | case7 | case8 | case11 => cases h

/-! ## Matches -/

theorem suffix_of_withinSegment {accept : List Char → Bool} (h : withinSegment accept cs = true) :
    ∃ rest, rest <:+ cs ∧ accept rest = true := by
  induction cs with
  | nil => exact ⟨[], List.suffix_rfl, h⟩
  | cons c cs ih =>
    rw [withinSegment, Bool.or_eq_true, Bool.and_eq_true] at h
    rcases h with h | ⟨-, h⟩
    · exact ⟨_, List.suffix_rfl, h⟩
    · obtain ⟨rest, hrest, ha⟩ := ih h
      exact ⟨rest, hrest.trans (List.suffix_cons c cs), ha⟩

theorem suffix_of_behindSegment {accept : List Char → Bool} (h : behindSegment accept cs = true) :
    ∃ rest, rest <:+ cs ∧ accept rest = true := by
  induction cs with
  | nil => exact ⟨[], List.suffix_rfl, h⟩
  | cons c cs ih =>
    rw [behindSegment, Bool.or_eq_true, Bool.and_eq_true] at h
    rcases h with ⟨-, h⟩ | h
    · exact ⟨cs, List.suffix_cons c cs, h⟩
    · obtain ⟨rest, hrest, ha⟩ := ih h
      exact ⟨rest, hrest.trans (List.suffix_cons c cs), ha⟩

theorem suffix_of_first {p : Char → Bool} {accept : List Char → Bool} (h : first p accept cs = true) :
    ∃ rest, rest <:+ cs ∧ accept rest = true := by
  cases cs with
  | nil => cases h
  | cons c cs =>
    rw [first, Bool.and_eq_true] at h
    exact ⟨cs, List.suffix_cons c cs, h.2⟩

/-- The last tokens match some end of the text. -/
theorem suffix_of_matchTokens (h : matchTokens (ts ++ us) cs = true) :
    ∃ rest, rest <:+ cs ∧ matchTokens us rest = true := by
  induction ts generalizing cs with
  | nil => exact ⟨cs, List.suffix_rfl, h⟩
  | cons t ts ih =>
    have hstep : ∃ rest, rest <:+ cs ∧ matchTokens (ts ++ us) rest = true := by
      cases t with
      | literal | single | oneOf | noneOf => exact suffix_of_first h
      | many => exact suffix_of_withinSegment h
      | deep =>
        rw [List.cons_append, matchTokens, Bool.or_eq_true] at h
        rcases h with h | h
        · exact ⟨cs, List.suffix_rfl, h⟩
        · exact suffix_of_behindSegment h
    obtain ⟨mid, hmid, hm⟩ := hstep
    obtain ⟨rest, hrest, hr⟩ := ih hm
    exact ⟨rest, hrest.trans hmid, hr⟩

theorem matchTokens_literals_append :
    matchTokens (front.map .literal ++ ts) cs = true ↔
      ∃ rest, cs = front ++ rest ∧ matchTokens ts rest = true := by
  induction front generalizing cs with
  | nil => simp
  | cons c front ih =>
    rw [List.map_cons, List.cons_append, matchTokens]
    cases cs with
    | nil => simp [first]
    | cons x cs =>
      rw [first, Bool.and_eq_true, ih, beq_iff_eq]
      constructor
      · rintro ⟨rfl, rest, rfl, h⟩
        exact ⟨rest, rfl, h⟩
      · rintro ⟨rest, he, h⟩
        obtain ⟨rfl, rfl⟩ := List.cons.inj he
        exact ⟨rfl, rest, rfl, h⟩

theorem matchTokens_literals : matchTokens (back.map .literal) cs = true ↔ cs = back := by
  have h := @matchTokens_literals_append [] cs back
  rw [List.append_nil] at h
  rw [h]
  constructor
  · rintro ⟨rest, rfl, hrest⟩
    obtain rfl := List.isEmpty_iff.1 hrest
    exact List.append_nil back
  · rintro rfl
    exact ⟨[], (List.append_nil cs).symm, rfl⟩

/-- A double star and a star stand for anything in front of an end within a segment. -/
theorem matchTokens_deep_many (hback : separator ∉ back) (h : back <:+ cs) :
    matchTokens (.deep :: .many :: back.map .literal) cs = true := by
  have hstart : matchTokens (back.map .literal) back = true := matchTokens_literals.2 rfl
  obtain ⟨front, rfl⟩ := h
  rw [matchTokens, Bool.or_eq_true]
  induction front with
  | nil =>
    left
    rw [List.nil_append, matchTokens]
    cases back with
    | nil => exact hstart
    | cons c cs => rw [withinSegment, hstart, Bool.true_or]
  | cons c front ih =>
    by_cases hc : c = separator
    · right
      rw [List.cons_append, behindSegment, hc, BEq.rfl, Bool.true_and, Bool.or_eq_true]
      exact ih
    · rcases ih with ih | ih
      · left
        rw [matchTokens] at ih
        have hne : (c != separator) = true := by simpa using hc
        rw [List.cons_append, matchTokens, withinSegment, ih, hne, Bool.true_and, Bool.or_true]
      · right
        rw [List.cons_append, behindSegment, ih, Bool.or_true]

/-! ## Patterns -/

/-- A path begins and ends as the pattern does that matches it. -/
theorem ends_of_accepts {pattern file : String} (hfront : ∀ c ∈ front, Plain c)
    (hback : ∀ c ∈ back, Inner c) (hf : front <+: pattern.toList) (hb : back <:+ pattern.toList)
    (hparse : parse pattern = .ok ts) (h : accepts ts file = true) :
    front <+: file.toList ∧ back <:+ file.toList := by
  rw [parse] at hparse
  have hlength : pattern.toList.length = pattern.length := String.length_toList
  constructor
  · obtain ⟨rest, hrest⟩ := hf
    have hn : pattern.length = rest.length + front.length := by
      rw [← hlength, ← hrest, List.length_append, Nat.add_comm]
    obtain ⟨position, before, htokens⟩ := @tokens_front rest.length 0 none [] rest front hfront
    rw [hn, ← hrest, htokens, List.append_nil] at hparse
    have hread := reverse_prefix_of_tokens hparse
    rw [List.reverse_reverse] at hread
    obtain ⟨more, rfl⟩ := hread
    obtain ⟨_, hfile, -⟩ := matchTokens_literals_append.1 h
    rw [hfile]
    exact List.prefix_append front _
  · obtain ⟨more, rfl⟩ := suffix_of_tokens hback (Nat.le_of_eq hlength) hb hparse
    obtain ⟨rest, hrest, hmatch⟩ := suffix_of_matchTokens h
    rwa [matchTokens_literals.1 hmatch] at hrest

/-- Tokens between whose front and end only a double star and a star stand match all paths that begin
and end so. -/
theorem accepts_of_ends {file rest : List Char} (hback : separator ∉ back)
    (hfile : file = front ++ rest) (h : back <:+ rest) :
    matchTokens (front.map .literal ++ .deep :: .many :: back.map .literal) file = true :=
  matchTokens_literals_append.2 ⟨rest, hfile, matchTokens_deep_many hback h⟩

theorem plain_test : ∀ c ∈ "test/".toList, Plain c := by
  simp [Plain]

theorem inner_js : ∀ c ∈ ".js".toList, Inner c := by
  simp [Inner, Plain, separator]

theorem parse_stagedPattern :
    parse Context.stagedPattern = .ok (.deep :: .many :: ".js".toList.map .literal) :=
  rfl

theorem parse_builtTests : parse Context.builtTests =
    .ok ("test/".toList.map .literal ++ .deep :: .many :: ".js".toList.map .literal) :=
  rfl

/-- The sources that are staged are those that end like scripts. -/
theorem accepts_stagedPattern_iff {file : String} (h : parse Context.stagedPattern = .ok ts) :
    accepts ts file = true ↔ ".js".toList <:+ file.toList := by
  constructor
  · intro ha
    exact (@ends_of_accepts ts [] ".js".toList Context.stagedPattern file nofun inner_js List.nil_prefix
      ⟨"**/*".toList, rfl⟩ h ha).2
  · intro hfile
    rw [parse_stagedPattern] at h
    cases h
    exact matchTokens_deep_many (fun hsep => (inner_js _ hsep).2.2 rfl) hfile

/-- The built tests are the scripts in the directory of tests. -/
theorem accepts_builtTests_iff {file : String} (h : parse Context.builtTests = .ok ts) :
    accepts ts file = true ↔ "test/".toList <+: file.toList ∧ ".js".toList <:+ file.toList := by
  constructor
  · intro ha
    exact ends_of_accepts plain_test inner_js ⟨"**/*.js".toList, rfl⟩ ⟨"test/**/*".toList, rfl⟩ h ha
  · rintro ⟨⟨rest, hfile⟩, hend⟩
    rw [parse_builtTests] at h
    cases h
    have hsep : separator ∉ ".js".toList := fun hsep => (inner_js _ hsep).2.2 rfl
    rw [← hfile] at hend
    exact accepts_of_ends hsep hfile.symm (suffix_behind "test".toList hsep hend)

end LocaleForge.Glob
