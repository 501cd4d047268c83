import LocaleForge.Json.Parser
import Mathlib.Tactic.SplitIfs

/-!
The compact text of a JSON value is read back as the value, whatever characters its strings and keys
hold. The text itself holds no control character.
-/

namespace LocaleForge.Json

variable {c e : Char} {cs ds rest : List Char} {n depth : Nat} {v : Json} {vs : List Json}
  {f : String × Json} {fs : List (String × Json)} {value : List Char → Option (Json × List Char)}

/-! ## Strings -/

theorem hexValue?_digitChar : ∀ k < 16, hexValue? (Nat.digitChar k) = some k := by
  decide

/-- Two digits behind two zeros are read as the number that they write. -/
theorem hexUnit?_digits (h : n < 256) :
    hexUnit? ('0' :: '0' :: Nat.digitChar (n / 16) :: Nat.digitChar (n % 16) :: cs) = some (n, cs) := by
  have hzero : hexValue? '0' = some 0 := rfl
  have hfirst := hexValue?_digitChar (n / 16) (by omega)
  have hlast := hexValue?_digitChar (n % 16) (by omega)
  have hsum : ((0 * 16 + 0) * 16 + n / 16) * 16 + n % 16 = n := by omega
  simp only [hexUnit?, hzero, hfirst, hlast, bind, Option.bind, hsum]

theorem unicodeEscape?_control (h : c.toNat < 32) :
    unicodeEscape? ('0' :: '0' :: Nat.digitChar (c.toNat / 16) :: Nat.digitChar (c.toNat % 16) :: cs) =
      some (c, cs) := by
  have hunit := @hexUnit?_digits cs c.toNat (by omega)
  have hfront : ¬ (0xD800 ≤ c.toNat ∧ c.toNat ≤ 0xDBFF) := by omega
  have hback : ¬ (0xDC00 ≤ c.toNat ∧ c.toNat ≤ 0xDFFF) := by omega
  simp only [unicodeEscape?, hunit, bind, Option.bind, if_neg hfront, if_neg hback, Char.ofNat_toNat]

theorem stringTail?_escape (he : escape? cs = some (e, ds)) {s : List Char}
    (h : stringTail? n ds = some (s, rest)) :
    stringTail? (n + 1) ('\\' :: cs) = some (e :: s, rest) := by
  have hquote : ¬ '\\' = '"' := by decide
  simp only [stringTail?, if_neg hquote, if_true, he, h, bind, Option.bind]

/-- A character is read back from what stands for it. -/
theorem stringTail?_escapeChar {s : List Char} (h : stringTail? n ds = some (s, rest)) :
    stringTail? (n + 1) (escapeChar c ++ ds) = some (c :: s, rest) := by
  have hcode : ∀ k, c.toNat = k → Char.ofNat k = c := by
    rintro _ rfl
    exact Char.ofNat_toNat c
  rw [escapeChar]
  split_ifs with hquote hslash hline hreturn htab hback hfeed hcontrol
  · subst hquote
    exact stringTail?_escape rfl h
  · subst hslash
    exact stringTail?_escape rfl h
  · subst hline
    exact stringTail?_escape rfl h
  · subst hreturn
    exact stringTail?_escape rfl h
  · subst htab
    exact stringTail?_escape rfl h
  -- The next two are told by their codes, so the character has to be put in for its code first.
  · exact stringTail?_escape (hcode 8 hback ▸ rfl) h
  · exact stringTail?_escape (hcode 12 hfeed ▸ rfl) h
  · have hunicode : escape? ('u' :: '0' :: '0' :: Nat.digitChar (c.toNat / 16) ::
        Nat.digitChar (c.toNat % 16) :: ds) = some (c, ds) := unicodeEscape?_control hcontrol
    exact stringTail?_escape hunicode h
  · simp only [List.singleton_append, stringTail?, if_neg hquote, if_neg hslash, if_neg hcontrol, h, bind,
      Option.bind]

theorem stringTail?_escaped (h : cs.length < n) :
    stringTail? n (cs.flatMap escapeChar ++ '"' :: rest) = some (cs, rest) := by
  induction cs generalizing n with
  | nil =>
    obtain ⟨n, rfl⟩ := Nat.exists_eq_add_one.2 h
    rfl
  | cons c cs ih =>
    obtain ⟨n, rfl⟩ := Nat.exists_eq_add_one.2 (Nat.zero_lt_of_lt h)
    rw [List.flatMap_cons, List.append_assoc]
    exact stringTail?_escapeChar (ih (Nat.lt_of_succ_lt_succ h))

/-- A joined text is as long as the list that it is made of, if each part holds something. -/
theorem length_le_flatMap {α : Type} {g : α → List Char} (hg : ∀ x, g x ≠ []) (xs : List α) :
    xs.length ≤ (xs.flatMap g).length := by
  induction xs with
  | nil => exact Nat.le_refl 0
  | cons x xs ih =>
    rw [List.flatMap_cons, List.length_append, List.length_cons, Nat.add_comm]
    exact Nat.add_le_add (List.length_pos_iff.2 (hg x)) ih

/-- The bound that readers are given is large enough, since each part takes a character at least. -/
theorem length_lt_bound {α : Type} {g : α → List Char} (hg : ∀ x, g x ≠ []) (xs : List α) (cs : List Char) :
    xs.length < (xs.flatMap g ++ cs).length + 1 := by
  have hlength := length_le_flatMap hg xs
  rw [List.length_append]
  omega

theorem escapeChar_ne_nil (c : Char) : escapeChar c ≠ [] := by
  rw [escapeChar]
  split_ifs <;> exact List.cons_ne_nil _ _

/-- A string is read back behind its opening quote. -/
theorem string?_escaped (s : String) (rest : List Char) :
    string? (s.toList.flatMap escapeChar ++ '"' :: rest) = some (s, rest) := by
  rw [string?, stringTail?_escaped (length_lt_bound escapeChar_ne_nil _ _)]
  simp

/-! ## Lists and records -/

/-- The characters of one field of a record. -/
def fieldChars (f : String × Json) : List Char :=
  stringChars f.1 ++ ':' :: f.2.chars

theorem itemsChars_cons (v : Json) (vs : List Json) :
    itemsChars (v :: vs) = v.chars ++ vs.flatMap fun w => ',' :: w.chars := by
  induction vs generalizing v with
  | nil => rw [itemsChars, List.flatMap_nil, List.append_nil]
  | cons w vs ih => rw [itemsChars, ih w, List.flatMap_cons, List.cons_append]

theorem fieldsChars_cons (f : String × Json) (fs : List (String × Json)) :
    fieldsChars (f :: fs) = fieldChars f ++ fs.flatMap fun g => ',' :: fieldChars g := by
  induction fs generalizing f with
  | nil => rw [fieldsChars, List.flatMap_nil, List.append_nil, fieldChars]
  | cons g fs ih => rw [fieldsChars, ih g, List.flatMap_cons, List.cons_append, ← fieldChars]

/-- No value begins with a blank or as a list ends. -/
theorem exists_chars_eq (v : Json) : ∃ c cs, v.chars = c :: cs ∧ isBlank c = false ∧ c ≠ ']' := by
  cases v with
  | string s => exact ⟨_, _, rfl, by decide, by decide⟩
  | list items => exact ⟨_, _, by rw [chars, List.cons_append], by decide, by decide⟩
  | record fields => exact ⟨_, _, by rw [chars, List.cons_append], by decide, by decide⟩

theorem moreItems?_chars (hvalue : ∀ v ∈ vs, ∀ rest, value (v.chars ++ rest) = some (v, rest))
    (h : vs.length < n) (rest : List Char) :
    moreItems? value n ((vs.flatMap fun v => ',' :: v.chars) ++ ']' :: rest) = some (vs, rest) := by
  induction vs generalizing n with
  | nil =>
    obtain ⟨n, rfl⟩ := Nat.exists_eq_add_one.2 h
    rfl
  | cons v vs ih =>
    obtain ⟨n, rfl⟩ := Nat.exists_eq_add_one.2 (Nat.zero_lt_of_lt h)
    have hmore := ih (fun w hw => hvalue w (List.mem_cons_of_mem _ hw)) (Nat.lt_of_succ_lt_succ h)
    have hcomma : ∀ cs, skipBlanks (',' :: cs) = ',' :: cs := fun _ => rfl
    simp only [List.flatMap_cons, List.cons_append, List.append_assoc, moreItems?, hcomma,
      hvalue v List.mem_cons_self, hmore, bind, Option.bind]

/-- A field is read back if its value is. -/
theorem field?_chars (hvalue : ∀ rest, value (f.2.chars ++ rest) = some (f.2, rest)) (rest : List Char) :
    field? value (fieldChars f ++ rest) = some (f, rest) := by
  have hquote : ∀ cs, skipBlanks ('"' :: cs) = '"' :: cs := fun _ => rfl
  have hcolon : ∀ cs, skipBlanks (':' :: cs) = ':' :: cs := fun _ => rfl
  simp only [fieldChars, stringChars, List.cons_append, List.append_assoc, List.nil_append, field?, hquote,
    string?_escaped, hcolon, hvalue, bind, Option.bind]

theorem moreFields?_chars
    (hvalue : ∀ f ∈ fs, ∀ rest, value (f.2.chars ++ rest) = some (f.2, rest)) (h : fs.length < n)
    (rest : List Char) :
    moreFields? value n ((fs.flatMap fun f => ',' :: fieldChars f) ++ '\x7d' :: rest) = some (fs, rest) := by
  induction fs generalizing n with
  | nil =>
    obtain ⟨n, rfl⟩ := Nat.exists_eq_add_one.2 h
    rfl
  | cons f fs ih =>
    obtain ⟨n, rfl⟩ := Nat.exists_eq_add_one.2 (Nat.zero_lt_of_lt h)
    have hmore := ih (fun g hg => hvalue g (List.mem_cons_of_mem _ hg)) (Nat.lt_of_succ_lt_succ h)
    have hcomma : ∀ cs, skipBlanks (',' :: cs) = ',' :: cs := fun _ => rfl
    simp only [List.flatMap_cons, List.cons_append, List.append_assoc, moreFields?, hcomma,
      field?_chars (hvalue f List.mem_cons_self), hmore, bind, Option.bind]

/-! ## Values -/

theorem value?_string (s : String) (rest : List Char) :
    value? (depth + 1) ((string s).chars ++ rest) = some (string s, rest) := by
  have hquote : ∀ cs, skipBlanks ('"' :: cs) = '"' :: cs := fun _ => rfl
  simp only [chars, stringChars, List.cons_append, List.append_assoc, List.nil_append, value?, hquote,
    string?_escaped, Option.map]

theorem value?_items (hblank : isBlank c = false) (hne : c ≠ ']')
    (hv : value? depth (c :: cs) = some (v, ds))
    (hvs : moreItems? (value? depth) (ds.length + 1) ds = some (vs, rest)) :
    value? (depth + 1) ('[' :: c :: cs) = some (list (v :: vs), rest) := by
  have hopen : skipBlanks ('[' :: c :: cs) = '[' :: c :: cs := rfl
  have hskip : skipBlanks (c :: cs) = c :: cs := List.dropWhile_cons_of_neg (by simp [hblank])
  simp only [value?, hopen, hskip]
  split
  case h_1 heq => exact absurd (List.cons.inj heq).1 hne
  case h_2 => simp only [hv, hvs, bind, Option.bind]

/-- A list is read back if its items are. -/
theorem value?_list (ih : ∀ v ∈ vs, ∀ rest, value? depth (v.chars ++ rest) = some (v, rest))
    (rest : List Char) : value? (depth + 1) ((list vs).chars ++ rest) = some (list vs, rest) := by
  cases vs with
  | nil => rfl
  | cons v vs =>
    obtain ⟨c, cs, hv, hblank, hne⟩ := exists_chars_eq v
    have hfirst := ih v List.mem_cons_self ((vs.flatMap fun w => ',' :: w.chars) ++ ']' :: rest)
    have hbound := length_lt_bound (fun w : Json => List.cons_ne_nil ',' w.chars) vs (']' :: rest)
    have hmore := moreItems?_chars (fun w hw => ih w (List.mem_cons_of_mem v hw)) hbound rest
    rw [chars, itemsChars_cons, hv]
    rw [hv] at hfirst
    simp only [List.cons_append, List.append_assoc, List.nil_append] at hfirst ⊢
    exact value?_items hblank hne hfirst hmore

theorem value?_fields (hv : field? (value? depth) ('"' :: cs) = some (f, ds))
    (hvs : moreFields? (value? depth) (ds.length + 1) ds = some (fs, rest)) :
    value? (depth + 1) ('\x7b' :: '"' :: cs) = some (record (f :: fs), rest) := by
  have hopen : skipBlanks ('\x7b' :: '"' :: cs) = '\x7b' :: '"' :: cs := rfl
  have hskip : skipBlanks ('"' :: cs) = '"' :: cs := rfl
  simp only [value?, hopen, hskip]
  split
  case h_1 heq => cases heq
  case h_2 => simp only [hv, hvs, bind, Option.bind]

/-- A record is read back if the values of its fields are. -/
theorem value?_record (ih : ∀ f ∈ fs, ∀ rest, value? depth (f.2.chars ++ rest) = some (f.2, rest))
    (rest : List Char) : value? (depth + 1) ((record fs).chars ++ rest) = some (record fs, rest) := by
  cases fs with
  | nil => rfl
  | cons f fs =>
    have hfirst := field?_chars (ih f List.mem_cons_self)
      ((fs.flatMap fun g => ',' :: fieldChars g) ++ '\x7d' :: rest)
    have hbound :=
      length_lt_bound (fun g : String × Json => List.cons_ne_nil ',' (fieldChars g)) fs ('\x7d' :: rest)
    have hmore := moreFields?_chars (fun g hg => ih g (List.mem_cons_of_mem f hg)) hbound rest
    rw [chars, fieldsChars_cons]
    simp only [fieldChars, stringChars, List.cons_append, List.append_assoc, List.nil_append] at hfirst hmore ⊢
    exact value?_fields hfirst hmore

theorem length_le_of_mem {α : Type} {x : α} {xs : List α} (g : α → List Char) (h : x ∈ xs) :
    (g x).length ≤ (xs.flatMap g).length := by
  obtain ⟨front, back, rfl⟩ := List.append_of_mem h
  rw [List.flatMap_append, List.flatMap_cons, List.length_append, List.length_append]
  omega

/-- An item is shorter than the list that holds it. -/
theorem length_lt_of_mem_list (h : v ∈ vs) : v.chars.length < (list vs).chars.length := by
  obtain ⟨w, ws, rfl⟩ := List.exists_cons_of_ne_nil (List.ne_nil_of_mem h)
  rw [chars, itemsChars_cons]
  rcases List.mem_cons.1 h with rfl | hmem
  · simp only [List.length_append, List.length_cons]
    omega
  · have hle := length_le_of_mem (fun w : Json => ',' :: w.chars) hmem
    simp only [List.length_append, List.length_cons] at hle ⊢
    omega

/-- The value of a field is shorter than the record that holds it. -/
theorem length_lt_of_mem_record (h : f ∈ fs) : f.2.chars.length < (record fs).chars.length := by
  obtain ⟨g, gs, rfl⟩ := List.exists_cons_of_ne_nil (List.ne_nil_of_mem h)
  rw [chars, fieldsChars_cons]
  rcases List.mem_cons.1 h with rfl | hmem
  · simp only [fieldChars, List.length_append, List.length_cons]
    omega
  · have hle := length_le_of_mem (fun g : String × Json => ',' :: fieldChars g) hmem
    simp only [fieldChars, List.length_append, List.length_cons] at hle ⊢
    omega

/-- A value is read back from its characters, whatever follows them. -/
theorem value?_chars (h : v.chars.length ≤ depth) (rest : List Char) :
    value? depth (v.chars ++ rest) = some (v, rest) := by
  -- The depth bounds the length of the text, and what is nested in a value is shorter than the value.
  induction depth generalizing v rest with
  | zero =>
    obtain ⟨c, cs, hv, -⟩ := exists_chars_eq v
    rw [hv] at h
    exact absurd h (Nat.not_succ_le_zero _)
  | succ depth ih =>
    cases v with
    | string s => exact value?_string s rest
    | list vs =>
      refine value?_list (fun v hv => ih ?_) rest
      exact Nat.le_of_lt_succ (Nat.lt_of_lt_of_le (length_lt_of_mem_list hv) h)
    | record fs =>
      refine value?_record (fun f hf => ih ?_) rest
      exact Nat.le_of_lt_succ (Nat.lt_of_lt_of_le (length_lt_of_mem_record hf) h)

/-- Reading the text of a value gives the value. -/
theorem parse?_render (v : Json) : parse? v.render = some v := by
  have hchars : v.render.toList = v.chars := String.toList_ofList
  have hlength : v.chars.length ≤ v.render.length + 1 := by
    rw [← hchars, String.length_toList]
    exact Nat.le_succ _
  have hread := value?_chars hlength []
  rw [List.append_nil] at hread
  simp only [parse?, hchars, hread, bind, Option.bind]
  rfl

/-! ## Control characters -/

theorem blank_le_digitChar : ∀ k < 16, ' ' ≤ Nat.digitChar k := by
  decide

theorem blank_le_short {d : Char} (hd : ' ' ≤ d) (he : e ∈ ['\\', d]) : ' ' ≤ e := by
  rcases List.mem_cons.1 he with rfl | he
  · decide
  · exact List.mem_singleton.1 he ▸ hd

theorem blank_le_escapeChar (he : e ∈ escapeChar c) : ' ' ≤ e := by
  rw [escapeChar] at he
  split_ifs at he with hquote hslash hline hreturn htab hback hfeed hcontrol
  iterate 7
    exact blank_le_short (by decide) he
  · simp only [List.mem_cons, List.not_mem_nil, or_false] at he
    obtain rfl | rfl | rfl | rfl | rfl | rfl := he
    · decide
    · decide
    · decide
    · decide
    · exact blank_le_digitChar _ (by omega)
    · exact blank_le_digitChar _ (by omega)
  · rw [List.mem_singleton.1 he]
    exact Nat.le_of_not_lt hcontrol

theorem blank_le_stringChars {s : String} (hc : c ∈ stringChars s) : ' ' ≤ c := by
  rw [stringChars, List.cons_append, List.mem_cons, List.mem_append, List.mem_flatMap, List.mem_singleton] at hc
  obtain rfl | ⟨e, -, hc⟩ | rfl := hc
  · decide
  · exact blank_le_escapeChar hc
  · decide

mutual

/-- No character of a value comes before the blank. -/
theorem blank_le_chars : ∀ {v : Json}, c ∈ v.chars → ' ' ≤ c
  | string _, hc => blank_le_stringChars hc
  | list items, hc => by
    rw [chars, List.cons_append, List.mem_cons, List.mem_append, List.mem_singleton] at hc
    obtain rfl | hc | rfl := hc
    · decide
    · exact blank_le_itemsChars hc
    · decide
  | record fields, hc => by
    rw [chars, List.cons_append, List.mem_cons, List.mem_append, List.mem_singleton] at hc
    obtain rfl | hc | rfl := hc
    · decide
    · exact blank_le_fieldsChars hc
    · decide

theorem blank_le_itemsChars : ∀ {vs : List Json}, c ∈ itemsChars vs → ' ' ≤ c
  | [v], hc => blank_le_chars hc
  | v :: w :: vs, hc => by
    rw [itemsChars, List.mem_append, List.mem_cons] at hc
    obtain hc | rfl | hc := hc
    · exact blank_le_chars hc
    · decide
    · exact blank_le_itemsChars hc

theorem blank_le_fieldsChars : ∀ {fs : List (String × Json)}, c ∈ fieldsChars fs → ' ' ≤ c
  | [(k, v)], hc => by
    rw [fieldsChars, List.mem_append, List.mem_cons] at hc
    obtain hc | rfl | hc := hc
    · exact blank_le_stringChars hc
    · decide
    · exact blank_le_chars hc
  | (k, v) :: f :: fs, hc => by
    rw [fieldsChars, List.append_assoc, List.mem_append, List.cons_append, List.mem_cons, List.mem_append,
      List.mem_cons] at hc
    obtain hc | rfl | hc | rfl | hc := hc
    · exact blank_le_stringChars hc
    · decide
    · exact blank_le_chars hc
    · decide
    · exact blank_le_fieldsChars hc

end

end LocaleForge.Json
