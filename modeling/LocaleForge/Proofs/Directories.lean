import LocaleForge.Proofs.LinkFree
import LocaleForge.Proofs.Steering

/-!
Paths to directories. Which directory a path leads to depends on what it names only, and the paths above
it lead to directories as well.
-/

namespace LocaleForge

namespace Path

variable {p q : Path} {front ps qs : List String} {name last : String} {absolute : Bool}

theorem exists_of_names_eq_cons (h : names qs = name :: ps) : ∃ idle rest, qs = idle ++ name :: rest ∧
    (∀ piece ∈ idle, isIdle piece = true) ∧ names rest = ps := by
  obtain ⟨idle, rest, rfl, hidle, -, hrest⟩ := List.filter_eq_cons_iff.1 h
  exact ⟨idle, rest, rfl, fun piece hpiece => by simpa using hidle piece hpiece, hrest⟩

/-! ## The path above -/

/-- A path is made of its pieces. -/
theorem ofPieces_pieces (p : Path) : ofPieces p.isAbsolute p.pieces = p := by
  have htext := Text.join_cut '/' p.text
  cases h : p.isAbsolute with
  | true =>
    obtain ⟨q, qs, hcut⟩ := isAbsolute_iff_cut.1 h
    have hjoin : Text.join '/' ("" :: q :: qs) = "/" ++ Text.join '/' (q :: qs) := by
      apply String.toList_injective
      simp [Text.join, Text.glue]
    rw [hcut, hjoin] at htext
    rw [ofPieces, pieces, if_pos rfl, if_pos h, hcut, List.tail_cons, htext]
  | false =>
    rw [ofPieces, pieces, if_neg Bool.false_ne_true, h, if_neg Bool.false_ne_true, String.empty_append,
      htext]

theorem pieces_join (p : Path) {rel : String} (hrel : (Path.mk rel).isAbsolute = false) :
    ∃ front, (p.pieces = front ∨ p.pieces = front ++ [""]) ∧
      (p.join rel).pieces = front ++ Text.cut '/' rel := by
  obtain ⟨ps, hps, hjoin⟩ := p.cut_join hrel
  rw [pieces, pieces, p.isAbsolute_join hrel, hjoin]
  cases ha : p.isAbsolute with
  | false => exact ⟨ps, hps, rfl⟩
  | true =>
    obtain ⟨q, qs, hcut⟩ := isAbsolute_iff_cut.1 ha
    obtain ⟨rest, rfl⟩ : ∃ rest, ps = "" :: rest := by
      cases ps with
      | nil => rcases hps with h | h <;> simp [hcut] at h
      | cons x rest =>
        rcases hps with h | h <;> rw [hcut] at h <;> exact ⟨rest, by rw [(List.cons.inj h).1]⟩
    refine ⟨rest, ?_, rfl⟩
    rcases hps with h | h
    · exact .inl (by rw [h]; rfl)
    · exact .inr (by rw [h]; rfl)

theorem dropIdleTail_concat (h : isIdle last = false) :
    dropIdleTail absolute (front ++ [last]) = front ++ [last] := by
  have hend : ∀ ps : List String, dropIdleEnd (ps ++ [last]) = ps ++ [last] := fun ps => by
    rw [dropIdleEnd_eq, List.rdropWhile_concat, if_neg (Bool.eq_false_iff.1 h)]
  cases front with
  | nil =>
    have hdot : (last == ".") = false := by
      rw [isIdle, Bool.or_eq_false_iff] at h
      exact h.2
    rw [List.nil_append, dropIdleTail, hdot, Bool.and_false, if_neg Bool.false_ne_true]
    exact hend []
  | cons x xs =>
    rw [List.cons_append, dropIdleTail]
    split
    · rw [hend]
    · exact hend (x :: xs)

/-- The path above a joined one is the first path, if its last piece names something. -/
theorem parent?_join (hp : p.pieces = front ++ [last]) (hlast : isIdle last = false) (h : Simple name) :
    (p.join name).parent? = some p := by
  obtain ⟨ps, hps, hjoin⟩ := p.pieces_join h.relative
  have hpieces : ps = p.pieces := by
    rcases hps with hps | hps
    · exact hps.symm
    · rw [hp] at hps
      rw [(List.cons.inj (List.append_inj' hps rfl).2).1] at hlast
      cases hlast
  rw [h.cut, hpieces] at hjoin
  rw [parent?, hjoin, dropIdleTail_concat h.notIdle, p.isAbsolute_join h.relative]
  split
  case h_1 heq => simp at heq
  case h_2 => rw [List.dropLast_concat, hp, dropIdleTail_concat hlast, ← hp, ofPieces_pieces]

end Path

namespace Disk

variable {d : Disk} {p q : Path} {dir loc l : Location} {ps qs rs idle : List String} {s : Spot}
  {follow b : Bool} {n : Nat}

/-! ## Names on the way -/

theorem Walks.idles (hidle : ∀ piece ∈ idle, Path.isIdle piece = true) (h : d.Walks follow n dir rs s) :
    d.Walks follow n dir (idle ++ rs) s := by
  induction idle with
  | nil => exact h
  | cons piece idle ih =>
    exact .idle (hidle piece List.mem_cons_self) (ih fun x hx => hidle x (List.mem_cons_of_mem _ hx))

/-- Whatever names the same as a walk to a directory is a walk to this directory. -/
theorem Walks.of_names (hw : d.Walks true n dir ps s) (hs : s.entry = some .directory)
    (hqs : Path.names qs = Path.names ps) : d.Walks true n dir qs s := by
  induction hw generalizing qs with
  | here n dir =>
    have hidle : ∀ piece ∈ qs, Path.isIdle piece = true := fun piece hpiece => by
      simpa using List.filter_eq_nil_iff.1 hqs piece hpiece
    have hwalk : d.Walks true n dir (qs ++ []) _ := .idles hidle (.here n dir)
    rwa [List.append_nil] at hwalk
  | idle hp _ ih => exact ih hs (hqs.trans (Path.names_idle hp _))
  | up _ ih =>
    obtain ⟨idle, rest, rfl, hidle, hrest⟩ :=
      Path.exists_of_names_eq_cons (hqs.trans (Path.names_cons not_isIdle_up _))
    exact .idles hidle (.up (ih hs hrest))
  | down hp hg _ ih =>
    obtain ⟨idle, rest, rfl, hidle, hrest⟩ :=
      Path.exists_of_names_eq_cons (hqs.trans (Path.names_cons hp.notIdle _))
    exact .idles hidle (.down hp hg (ih hs hrest))
  | missing => cases hs
  | file => cases hs
  | stop => cases hs
  | @link n dir p ps s target hp hg hps _ ih =>
    obtain ⟨idle, rest, rfl, hidle, hrest⟩ :=
      Path.exists_of_names_eq_cons (hqs.trans (Path.names_cons hp.notIdle _))
    refine .idles hidle (.link hp hg (by simp) (ih hs ?_))
    rw [Path.names_append, Path.names_append, hrest]

/-- A path that names what the path to a directory names leads to this directory too. -/
theorem find_of_names (hf : d.find true p = .ok ⟨loc, some .directory, b⟩) (hopens : d.Opens q)
    (ha : q.isAbsolute = p.isAbsolute)
    (hn : Path.names (Text.cut '/' q.text) = Path.names (Text.cut '/' p.text)) :
    d.find true q = .ok ⟨loc, some .directory, b⟩ := by
  obtain ⟨-, hw⟩ := find_eq_ok_iff.1 hf
  refine find_eq_ok_iff.2 ⟨hopens, ?_⟩
  rw [origin, ha, ← origin]
  exact hw.of_names rfl hn

/-- Where a path heads that names a front of what the path to a directory names, a directory lies. -/
theorem directory_of_front (hf : d.find true p = .ok ⟨loc, some .directory, b⟩)
    (ha : q.isAbsolute = p.isAbsolute)
    (hn : Path.names (Text.cut '/' q.text) <+: Path.names (Text.cut '/' p.text))
    (hheads : d.heading? q = some l) : d.get? l = some .directory := by
  obtain ⟨rest, hrest⟩ := hn
  obtain ⟨hopens, hw⟩ := find_eq_ok_iff.1 hf
  have horigin : d.origin q = d.origin p := by rw [origin, ha, ← origin]
  -- The walk along the names passes the front.
  have hnames : d.Walks true maxLinks (d.origin p) (Path.names (Text.cut '/' q.text) ++ rest)
      ⟨loc, some .directory, b⟩ := hw.of_names rfl (by rw [hrest, Path.names_names])
  have hfront : ∃ l', d.Walks true maxLinks (d.origin p) (Path.names (Text.cut '/' q.text))
      ⟨l', some .directory, false⟩ := by
    have hslash := hnames.slash rfl
    rw [List.append_assoc] at hslash
    exact walks_front rfl (by simp) hopens.origin hslash rfl
  obtain ⟨l', hfront⟩ := hfront
  have hhead := (Grown.refl d fun _ => False).sameLinks.head_of_walks hfront
  rw [heading?, horigin, ← head_names (Path.names_names _), hhead] at hheads
  obtain rfl := Option.some.inj hheads
  have hsep : ∀ piece ∈ Path.names (Text.cut '/' q.text), '/' ∉ piece.toList := fun piece hpiece =>
    Text.sep_notMem_of_mem_cut (List.mem_of_mem_filter hpiece)
  exact (sound_of_walk hopens.origin hsep hfront.walk_eq).entry_eq.symm

end Disk

end LocaleForge
