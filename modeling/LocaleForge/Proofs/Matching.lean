import LocaleForge.Proofs.Patterns
import Mathlib.Data.List.Forall2

/-!
What the single tokens of a pattern match. A list of tokens matches a text by cutting it into pieces, one
for each token.
-/

namespace LocaleForge

theorem exists_of_forall₂ {α β : Type} {R : α → β → Prop} {l : List α} {m : List β}
    (h : List.Forall₂ R l m) {b : β} (hb : b ∈ m) : ∃ a ∈ l, R a b := by
  induction h with
  | nil => cases hb
  | cons hab _ ih =>
    rcases List.mem_cons.1 hb with rfl | hb
    · exact ⟨_, List.mem_cons_self, hab⟩
    · obtain ⟨a, ha, hab⟩ := ih hb
      exact ⟨a, List.mem_cons_of_mem _ ha, hab⟩

namespace Glob

/-- The characters that a token stands for by itself. The stars stand for whole texts instead. -/
def Token.takes : Token → Char → Bool
  | literal c, x => x == c
  | single, x => x != separator
  | oneOf set, x => x != separator && set.any (·.contains x)
  | noneOf set, x => x != separator && !set.any (·.contains x)
  | many, _ | deep, _ => false

/-- The token is none of the stars: it stands for one character. -/
def Token.One : Token → Prop
  | many | deep => False
  | _ => True

/-- The tokens stand for the characters of a text, each for one. -/
def Spells (ts : List Token) (text : List Char) : Prop :=
  List.Forall₂ (fun t x => t.takes x = true) ts text

variable {ts us us' : List Token} {t : Token} {c x : Char} {cs front text rest : List Char}
  {accept : List Char → Bool}

theorem Token.one_or_star (t : Token) : t.One ∨ t = .many ∨ t = .deep := by
  cases t with
  | many => exact .inr (.inl rfl)
  | deep => exact .inr (.inr rfl)
  | literal | single | oneOf | noneOf => exact .inl trivial

theorem Spells.length_eq (h : Spells ts text) : ts.length = text.length :=
  List.Forall₂.length_eq h

theorem first_iff {p : Char → Bool} :
    first p accept cs = true ↔ ∃ x rest, cs = x :: rest ∧ p x = true ∧ accept rest = true := by
  cases cs with
  | nil => simp [first]
  | cons c cs => simp [first, and_assoc]

theorem withinSegment_iff : withinSegment accept cs = true ↔
    ∃ front rest, cs = front ++ rest ∧ separator ∉ front ∧ accept rest = true := by
  induction cs with
  | nil => simp [withinSegment, and_assoc]
  | cons c cs ih =>
    rw [withinSegment, Bool.or_eq_true, Bool.and_eq_true, ih, bne_iff_ne]
    constructor
    · rintro (h | ⟨hc, front, rest, rfl, hfront, h⟩)
      · exact ⟨[], c :: cs, rfl, List.not_mem_nil, h⟩
      · exact ⟨c :: front, rest, rfl, List.not_mem_cons_of_ne_of_not_mem hc.symm hfront, h⟩
    · rintro ⟨front, rest, hcs, hfront, h⟩
      cases front with
      | nil => exact .inl (hcs ▸ h)
      | cons x front =>
        obtain ⟨rfl, rfl⟩ := List.cons.inj hcs
        obtain ⟨hx, hfront⟩ := not_or.1 (mt List.mem_cons.2 hfront)
        exact .inr ⟨Ne.symm hx, front, rest, rfl, hfront, h⟩

theorem behindSegment_iff : behindSegment accept cs = true ↔
    accept [] = true ∨ ∃ front rest, cs = front ++ separator :: rest ∧ accept rest = true := by
  induction cs with
  | nil => simp [behindSegment]
  | cons c cs ih =>
    rw [behindSegment, Bool.or_eq_true, Bool.and_eq_true, ih, beq_iff_eq]
    constructor
    · rintro (⟨rfl, h⟩ | h | ⟨front, rest, rfl, h⟩)
      · exact .inr ⟨[], cs, rfl, h⟩
      · exact .inl h
      · exact .inr ⟨c :: front, rest, rfl, h⟩
    · rintro (h | ⟨front, rest, hcs, h⟩)
      · exact .inr (.inl h)
      · cases front with
        | nil =>
          obtain ⟨rfl, rfl⟩ := List.cons.inj hcs
          exact .inl ⟨rfl, h⟩
        | cons x front =>
          obtain ⟨rfl, rfl⟩ := List.cons.inj hcs
          exact .inr (.inr ⟨front, rest, rfl, h⟩)

theorem matchTokens_one_cons (ht : t.One) : matchTokens (t :: ts) cs = true ↔
    ∃ x rest, cs = x :: rest ∧ t.takes x = true ∧ matchTokens ts rest = true := by
  cases t with
  | many | deep => exact ht.elim
  | literal | single | oneOf | noneOf => exact first_iff

theorem matchTokens_literal_cons : matchTokens (.literal c :: ts) cs = true ↔
    ∃ rest, cs = c :: rest ∧ matchTokens ts rest = true := by
  have hone : (Token.literal c).One := trivial
  rw [matchTokens_one_cons hone]
  constructor
  · rintro ⟨x, rest, rfl, hx, h⟩
    obtain rfl : x = c := beq_iff_eq.1 hx
    exact ⟨rest, rfl, h⟩
  · rintro ⟨rest, rfl, h⟩
    exact ⟨c, rest, rfl, beq_self_eq_true c, h⟩

theorem matchTokens_many_cons : matchTokens (.many :: ts) cs = true ↔
    ∃ front rest, cs = front ++ rest ∧ separator ∉ front ∧ matchTokens ts rest = true :=
  withinSegment_iff

/-- A double star leads to the front, to the end, or behind a separator. -/
theorem matchTokens_deep_cons : matchTokens (.deep :: ts) cs = true ↔
    matchTokens ts cs = true ∨ matchTokens ts [] = true ∨
      ∃ front rest, cs = front ++ separator :: rest ∧ matchTokens ts rest = true := by
  rw [matchTokens, Bool.or_eq_true, behindSegment_iff]

theorem matchTokens_ones_append (hts : ∀ t ∈ ts, t.One) : matchTokens (ts ++ us) cs = true ↔
    ∃ text rest, cs = text ++ rest ∧ Spells ts text ∧ matchTokens us rest = true := by
  induction ts generalizing cs with
  | nil => simp [Spells]
  | cons t ts ih =>
    obtain ⟨ht, hts⟩ := List.forall_mem_cons.1 hts
    rw [List.cons_append, matchTokens_one_cons ht]
    constructor
    · rintro ⟨x, rest, rfl, htakes, h⟩
      obtain ⟨text, rest, rfl, hspells, h⟩ := (ih hts).1 h
      exact ⟨x :: text, rest, rfl, .cons htakes hspells, h⟩
    · rintro ⟨text, rest, rfl, hspells, h⟩
      cases hspells with
      | cons htakes hspells => exact ⟨_, _, rfl, htakes, (ih hts).2 ⟨_, rest, rfl, hspells, h⟩⟩

theorem matchTokens_ones (hts : ∀ t ∈ ts, t.One) : matchTokens ts cs = true ↔ Spells ts cs := by
  rw [← List.append_nil ts, matchTokens_ones_append hts, List.append_nil]
  constructor
  · rintro ⟨text, rest, rfl, hspells, hrest⟩
    obtain rfl := List.isEmpty_iff.1 hrest
    rwa [List.append_nil]
  · exact fun hspells => ⟨cs, [], (List.append_nil cs).symm, hspells, rfl⟩

/-- Tokens may give way to others that match more texts. -/
theorem matchTokens_append_mono (h : matchTokens (ts ++ us) cs = true)
    (mono : ∀ rest, matchTokens us rest = true → matchTokens us' rest = true) :
    matchTokens (ts ++ us') cs = true := by
  induction ts generalizing cs with
  | nil => exact mono cs h
  | cons t ts ih =>
    rw [List.cons_append] at h ⊢
    rcases t.one_or_star with hone | rfl | rfl
    · obtain ⟨x, rest, hcs, hx, hrest⟩ := (matchTokens_one_cons hone).1 h
      exact (matchTokens_one_cons hone).2 ⟨x, rest, hcs, hx, ih hrest⟩
    · obtain ⟨front, rest, hcs, hfront, hrest⟩ := matchTokens_many_cons.1 h
      exact matchTokens_many_cons.2 ⟨front, rest, hcs, hfront, ih hrest⟩
    · rcases matchTokens_deep_cons.1 h with hrest | hrest | ⟨front, rest, hcs, hrest⟩
      · exact matchTokens_deep_cons.2 (.inl (ih hrest))
      · exact matchTokens_deep_cons.2 (.inr (.inl (ih hrest)))
      · exact matchTokens_deep_cons.2 (.inr (.inr ⟨front, rest, hcs, ih hrest⟩))

end Glob

end LocaleForge
