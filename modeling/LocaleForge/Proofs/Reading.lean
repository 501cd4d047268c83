import LocaleForge.Proofs.Matching

/-!
How patterns are read, as a relation: it tells the tokens by the text alone, without positions. From it
follows what becomes of the tokens when the last star of a pattern gives way to other text.
-/

namespace LocaleForge.Glob

/-- A text is read as tokens. As in `tokens`, the character in front of it is given, and the tokens read
so far, the last one first. -/
inductive Reads : Option Char → List Token → List Char → List Token → Prop
  | nil {before done} : Reads before done [] done.reverse
  | single {before done cs ts} (rest : Reads (some '?') (.single :: done) cs ts) :
      Reads before done ('?' :: cs) ts
  | many {before done cs ts} (alone : ∀ cs', cs ≠ '*' :: cs')
      (rest : Reads (some '*') (.many :: done) cs ts) : Reads before done ('*' :: cs) ts
  | deepLast {before done} (starts : before = none ∨ before = some separator) :
      Reads before done ['*', '*'] (addDeep done).reverse
  | deep {before done cs ts} (starts : before = none ∨ before = some separator)
      (rest : Reads (some separator) (addDeep done) cs ts) :
      Reads before done ('*' :: '*' :: separator :: cs) ts
  | set {before done cs t cs' ts} (closed : set? cs = some (t, cs'))
      (rest : Reads (some ']') (t :: done) cs' ts) : Reads before done ('[' :: cs) ts
  | plain {before done c cs ts} (self : Plain c) (rest : Reads (some c) (.literal c :: done) cs ts) :
      Reads before done (c :: cs) ts

variable {n position : Nat} {before : Option Char} {done ts us : List Token} {t : Token} {c : Char}
  {cs front back rest name : List Char}

theorem reads_of_tokens (hn : cs.length ≤ n) (h : tokens n position before done cs = .ok ts) :
    Reads before done cs ts := by
  fun_induction tokens n position before done cs with
  | case1 =>
    obtain rfl := List.eq_nil_of_length_eq_zero (Nat.le_zero.1 hn)
    cases h
    exact .nil
  | case2 =>
    cases h
    exact .nil
  | case3 _ _ _ _ _ ih => exact .single (ih (Nat.le_of_succ_le_succ hn) h)
  | case5 _ _ _ _ starts =>
    cases h
    exact .deepLast starts
  | case6 _ _ _ _ starts _ _ ih =>
    exact .deep starts (ih (by simp only [List.length_cons] at hn; omega) h)
  | case9 _ _ _ _ _ _ alone ih => exact .many alone (ih (Nat.le_of_succ_le_succ hn) h)
  | case10 _ _ _ _ rest _ rest' hrest ih =>
    obtain ⟨front, rfl⟩ := bracket_of_set? hrest
    refine .set hrest (ih ?_ h)
    simp only [List.length_cons, List.length_append] at hn
    omega
  | case12 _ _ _ _ _ _ hsingle _ _ hstar hset ih =>
    exact .plain ⟨hsingle, hstar, hset⟩ (ih (Nat.le_of_succ_le_succ hn) h)
  | case4 | case7 | case8 | case11 => cases h

theorem Reads.tokens_eq (h : Reads before done cs ts) :
    ∀ more position, tokens (cs.length + more) position before done cs = .ok ts := by
  induction h with
  | nil => exact fun _ _ => tokens_nil
  | single _ ih =>
    intro more position
    rw [List.length_cons, Nat.add_right_comm]
    exact ih more (position + 1)
  | many alone _ ih =>
    intro more position
    rw [List.length_cons, Nat.add_right_comm, tokens]
    · exact ih more (position + 1)
    · exact fun _ => alone _
    · exact alone
  | deepLast starts =>
    intro more position
    rw [List.length_cons, Nat.add_right_comm, tokens, if_pos starts]
  | @deep _ _ cs _ starts _ ih =>
    intro more position
    have hlength : ('*' :: '*' :: separator :: cs).length + more = cs.length + (more + 2) + 1 := by
      simp only [List.length_cons]
      omega
    rw [hlength, tokens, if_pos starts]
    · simp only [if_true]
      exact ih (more + 2) (position + 3)
    · exact fun _ heq => absurd (List.cons.inj heq).1 (by decide)
  | @set _ _ cs _ cs' _ closed _ ih =>
    intro more position
    obtain ⟨front, hfront⟩ := bracket_of_set? closed
    have hlength : ('[' :: cs).length + more = cs'.length + (front.length + 1 + more) + 1 := by
      rw [hfront]
      simp only [List.length_cons, List.length_append]
      omega
    rw [hlength, tokens, closed]
    exact ih _ _
  | plain self _ ih =>
    intro more position
    rw [List.length_cons, Nat.add_right_comm, tokens_plain self]
    exact ih more (position + 1)

theorem parse_eq_ok_iff {pattern : String} :
    parse pattern = .ok ts ↔ Reads none [] pattern.toList ts := by
  rw [parse, ← String.length_toList]
  exact ⟨reads_of_tokens (Nat.le_refl _), fun h => h.tokens_eq 0 0⟩

/-! ## Sets -/

/-- A set that is closed stays so, whatever follows it. -/
theorem set?_append (more : List Char) (h : set? cs = some (t, rest)) :
    set? (cs ++ more) = some (t, rest ++ more) := by
  obtain ⟨c, inner, hinner, ⟨rfl, rfl⟩ | ⟨hc, rfl, rfl⟩⟩ := set?_eq_some_iff.1 h
  · exact set?_eq_some_iff.2 ⟨c, inner, hinner, .inl ⟨by simp, rfl⟩⟩
  · exact set?_eq_some_iff.2 ⟨c, inner, hinner, .inr ⟨hc, by simp, rfl⟩⟩

theorem one_of_set? (h : set? cs = some (t, rest)) : t.One := by
  obtain ⟨c, inner, -, ⟨-, rfl⟩ | ⟨-, -, rfl⟩⟩ := set?_eq_some_iff.1 h
  · trivial
  · trivial

/-! ## The front of a text -/

namespace Reads

theorem inv_nil (h : Reads before done [] ts) : ts = done.reverse := by
  cases h
  rfl

theorem inv_single (h : Reads before done ('?' :: cs) ts) :
    Reads (some '?') (.single :: done) cs ts := by
  cases h with
  | single rest => exact rest
  | plain self => exact absurd rfl self.1

theorem inv_star (h : Reads before done ('*' :: cs) ts) :
    (∀ cs', cs ≠ '*' :: cs') ∧ Reads (some '*') (.many :: done) cs ts ∨
      (before = none ∨ before = some separator) ∧ (cs = ['*'] ∧ ts = (addDeep done).reverse ∨
        ∃ cs', cs = '*' :: separator :: cs' ∧ Reads (some separator) (addDeep done) cs' ts) := by
  cases h with
  | many alone rest => exact .inl ⟨alone, rest⟩
  | deepLast starts => exact .inr ⟨starts, .inl ⟨rfl, rfl⟩⟩
  | deep starts rest => exact .inr ⟨starts, .inr ⟨_, rfl, rest⟩⟩
  | plain self => exact absurd rfl self.2.1

theorem inv_set (h : Reads before done ('[' :: cs) ts) :
    ∃ t cs', set? cs = some (t, cs') ∧ Reads (some ']') (t :: done) cs' ts := by
  cases h with
  | set closed rest => exact ⟨_, _, closed, rest⟩
  | plain self => exact absurd rfl self.2.2

theorem inv_plain (hc : Plain c) (h : Reads before done (c :: cs) ts) :
    Reads (some c) (.literal c :: done) cs ts := by
  cases h with
  | single => exact absurd rfl hc.1
  | many | deepLast | deep => exact absurd rfl hc.2.1
  | set => exact absurd rfl hc.2.2
  | plain _ rest => exact rest

end Reads

/-! ## Texts that mean the same wherever they stand -/

/-- A text adds some tokens to those that are read so far, whatever they are. -/
def Adds (cs : List Char) (us : List Token) : Prop :=
  ∀ before done, Reads before done cs (done.reverse ++ us)

namespace Adds

theorem nil : Adds [] [] := by
  intro before done
  rw [List.append_nil]
  exact .nil

/-- A text that begins with what is read as one token. -/
theorem step {cs' : List Char} {last : Char} (h : Adds cs us)
    (read : ∀ before done ts, Reads (some last) (t :: done) cs ts → Reads before done cs' ts) :
    Adds cs' (t :: us) := by
  intro before done
  have hrest := read before done _ (h (some last) (t :: done))
  rwa [List.reverse_cons, List.append_assoc] at hrest

theorem many (alone : ∀ cs', cs ≠ '*' :: cs') (h : Adds cs us) : Adds ('*' :: cs) (.many :: us) :=
  h.step fun _ _ _ => .many alone

theorem plain (hc : Plain c) (h : Adds cs us) : Adds (c :: cs) (.literal c :: us) :=
  h.step fun _ _ _ => .plain hc

theorem literals (hfront : ∀ c ∈ front, Plain c) (h : Adds cs us) :
    Adds (front ++ cs) (front.map .literal ++ us) := by
  induction front with
  | nil => exact h
  | cons c front ih =>
    obtain ⟨hc, hfront⟩ := List.forall_mem_cons.1 hfront
    exact (ih hfront).plain hc

end Adds

/-- Without a star each token stands for one character, whatever is in front. -/
theorem Reads.adds_of_starless (h : Reads before done cs ts) (hcs : '*' ∉ cs) :
    ∃ us, ts = done.reverse ++ us ∧ (∀ t ∈ us, t.One) ∧ Adds cs us := by
  induction h with
  | nil => exact ⟨[], (List.append_nil _).symm, nofun, .nil⟩
  | single _ ih =>
    obtain ⟨us, rfl, hus, hadds⟩ := ih fun hmem => hcs (List.mem_cons_of_mem _ hmem)
    exact ⟨.single :: us, by simp, List.forall_mem_cons.2 ⟨trivial, hus⟩,
      hadds.step fun _ _ _ => .single⟩
  | many | deepLast | deep => exact absurd List.mem_cons_self hcs
  | @set _ _ _ t _ _ closed _ ih =>
    obtain ⟨front, rfl⟩ := bracket_of_set? closed
    obtain ⟨us, rfl, hus, hadds⟩ := ih fun hmem => hcs (by simp [hmem])
    exact ⟨t :: us, by simp, List.forall_mem_cons.2 ⟨one_of_set? closed, hus⟩,
      hadds.step fun _ _ _ => .set closed⟩
  | @plain _ _ c _ _ self _ ih =>
    obtain ⟨us, rfl, hus, hadds⟩ := ih fun hmem => hcs (List.mem_cons_of_mem _ hmem)
    exact ⟨.literal c :: us, by simp, List.forall_mem_cons.2 ⟨trivial, hus⟩, hadds.plain self⟩

/-! ## A name in place of the last star -/

/-- What tokens become when their last star gives way to a name: `ts` are those of the pattern, and `fs`
those of the text in front of the star, which is either a wildcard of its own or the second half of a
double star. -/
inductive Replaced (fs ts : List Token) : (List Char → List Token) → Prop
  | many {bs} (ones : ∀ t ∈ bs, t.One) (whole : ts = fs ++ .many :: bs) :
      Replaced fs ts fun name => fs ++ (name.map .literal ++ bs)
  | deep {ds sep bs} (front : fs = ds.reverse ++ [.many]) (whole : ts = (addDeep ds).reverse ++ bs)
      (ends : sep = [] ∧ bs = [] ∨ sep = [.literal separator]) :
      Replaced fs ts fun name => ds.reverse ++ .many :: (name.map .literal ++ (sep ++ bs))

theorem Reads.replace {fs : List Token} (hfront : Reads before done front fs)
    (h : Reads before done (front ++ '*' :: back) ts) (hback : '*' ∉ back) :
    ∃ named, Replaced fs ts named ∧
      ∀ name, (∀ c ∈ name, Plain c) → Reads before done (front ++ (name ++ back)) (named name) := by
  have starless : ∀ {name : List Char}, (∀ c ∈ name, Plain c) → ∀ cs', name ++ back ≠ '*' :: cs' := by
    intro name hname cs' heq
    have hmem : '*' ∈ name ++ back := by simp [heq]
    rcases List.mem_append.1 hmem with hmem | hmem
    · exact (hname _ hmem).2.1 rfl
    · exact hback hmem
  induction hfront with
  | @nil before done =>
    rcases h.inv_star with ⟨-, rest⟩ | ⟨-, ⟨rfl, -⟩ | ⟨cs', rfl, -⟩⟩
    · obtain ⟨bs, rfl, hbs, hadds⟩ := rest.adds_of_starless hback
      exact ⟨_, .many hbs (by simp), fun name hname => hadds.literals hname before done⟩
    · exact absurd List.mem_cons_self hback
    · exact absurd List.mem_cons_self hback
  | single _ ih =>
    obtain ⟨named, hnamed, hreads⟩ := ih h.inv_single
    exact ⟨named, hnamed, fun name hname => .single (hreads name hname)⟩
  | @many before done cs fs alone rest ih =>
    have hnil : ∀ {cs' : List Char}, cs ++ '*' :: back = '*' :: cs' → cs = [] ∧ back = cs' := by
      intro cs' hcs
      cases cs with
      | nil => exact ⟨rfl, (List.cons.inj hcs).2⟩
      | cons c cs => exact absurd (congrArg (· :: cs) (List.cons.inj hcs).1) (alone cs)
    rcases h.inv_star with ⟨alone', rest'⟩ | ⟨-, ⟨hcs, rfl⟩ | ⟨cs', hcs, rest'⟩⟩
    · obtain ⟨named, hnamed, hreads⟩ := ih rest'
      refine ⟨named, hnamed, fun name hname => .many (fun cs' heq => ?_) (hreads name hname)⟩
      cases cs with
      | nil => exact starless hname cs' heq
      | cons c cs => exact alone _ (congrArg (· :: cs) (List.cons.inj heq).1)
    -- The two stars are one double star, of which only the second half is replaced.
    · obtain ⟨rfl, rfl⟩ := hnil hcs
      obtain rfl := rest.inv_nil
      have hwhole := (List.append_nil (addDeep done).reverse).symm
      refine ⟨_, .deep (List.reverse_cons ..) hwhole (.inl ⟨rfl, rfl⟩), fun name hname => ?_⟩
      exact Adds.many (starless hname) (Adds.nil.literals hname) before done
    · obtain ⟨rfl, rfl⟩ := hnil hcs
      obtain rfl := rest.inv_nil
      have hcs' : '*' ∉ cs' := fun hmem => hback (List.mem_cons_of_mem _ hmem)
      obtain ⟨bs, rfl, hbs, hadds⟩ := rest'.adds_of_starless hcs'
      refine ⟨_, .deep (List.reverse_cons ..) rfl (.inr rfl), fun name hname => ?_⟩
      have hsep : Plain separator := by simp [Plain, separator]
      exact Adds.many (starless hname) ((hadds.plain hsep).literals hname) before done
  | deepLast =>
    rcases h.inv_star with ⟨alone, -⟩ | ⟨-, ⟨hcs, -⟩ | ⟨cs', hcs, -⟩⟩
    · exact absurd rfl (alone _)
    · cases hcs
    · cases hcs
  | deep starts rest ih =>
    rcases h.inv_star with ⟨alone, -⟩ | ⟨-, ⟨hcs, -⟩ | ⟨cs', hcs, rest'⟩⟩
    · exact absurd rfl (alone _)
    · cases hcs
    · cases hcs
      obtain ⟨named, hnamed, hreads⟩ := ih rest'
      exact ⟨named, hnamed, fun name hname => .deep starts (hreads name hname)⟩
  | set closed rest ih =>
    obtain ⟨t, cs', closed', rest'⟩ := h.inv_set
    cases (set?_append _ closed).symm.trans closed'
    obtain ⟨named, hnamed, hreads⟩ := ih rest'
    exact ⟨named, hnamed, fun name hname => .set (set?_append _ closed) (hreads name hname)⟩
  | plain self rest ih =>
    obtain ⟨named, hnamed, hreads⟩ := ih (h.inv_plain self)
    exact ⟨named, hnamed, fun name hname => .plain self (hreads name hname)⟩

/-! ## Where double stars stand -/

/-- The tokens, the last one first, end where a segment of a path begins. -/
inductive AtStart : List Token → Prop
  | nil : AtStart []
  | behind {done : List Token} : AtStart (.literal separator :: done)
  | deep {done : List Token} (start : AtStart done) : AtStart (.deep :: done)

/-- Among the tokens, the last one first, each double star stands where a segment begins. -/
inductive Placed : List Token → Prop
  | nil : Placed []
  | other {t : Token} {done : List Token} (ne : t ≠ .deep) (rest : Placed done) : Placed (t :: done)
  | deep {done : List Token} (start : AtStart done) (rest : Placed done) : Placed (.deep :: done)

theorem Token.One.ne_deep (h : t.One) : t ≠ .deep := by
  rintro rfl
  exact h

theorem Placed.atStart (h : Placed (us ++ .deep :: ts)) : AtStart ts := by
  induction us with
  | nil =>
    cases h with
    | other ne => exact absurd rfl ne
    | deep start => exact start
  | cons t us ih =>
    cases h with
    | other _ rest => exact ih rest
    | deep _ rest => exact ih rest

theorem AtStart.addDeep (h : AtStart done) : AtStart (addDeep done) := by
  unfold Glob.addDeep
  split
  · exact h
  · exact .deep h

theorem Placed.addDeep (h : Placed done) (start : AtStart done) : Placed (addDeep done) := by
  unfold Glob.addDeep
  split
  · exact h
  · exact .deep start h

theorem Reads.placed (h : Reads before done cs ts)
    (start : before = none ∨ before = some separator → AtStart done) (hdone : Placed done) :
    Placed ts.reverse := by
  -- A character in front other than the separator leaves nothing to show about the segment.
  have inside {x : Char} {done : List Token} (hx : x ≠ separator) :
      some x = none ∨ some x = some separator → AtStart done := by
    rintro (hnone | hsome)
    · cases hnone
    · exact absurd (Option.some.inj hsome) hx
  induction h with
  | nil => rwa [List.reverse_reverse]
  | single _ ih => exact ih (inside (by decide)) (.other nofun hdone)
  | many _ _ ih => exact ih (inside (by decide)) (.other nofun hdone)
  | deepLast starts =>
    rw [List.reverse_reverse]
    exact hdone.addDeep (start starts)
  | deep starts _ ih => exact ih (fun _ => (start starts).addDeep) (hdone.addDeep (start starts))
  | set closed _ ih => exact ih (inside (by decide)) (.other (one_of_set? closed).ne_deep hdone)
  | @plain _ _ c _ _ _ _ ih =>
    refine ih (fun hc => ?_) (.other nofun hdone)
    obtain rfl : c = separator := by simpa using hc
    exact .behind

end LocaleForge.Glob
