import LocaleForge.Proofs.Framing
import Mathlib.Data.List.DropRight

/-!
The directories that are made when a file is written: those that the paths above its own lead to. Where
the file's path goes down only, they lie above the file.
-/

namespace LocaleForge

theorem Text.glue_front {sep : Char} {ps qs : List (List Char)} (h : ps <+: qs) :
    glue sep ps <+: glue sep qs := by
  induction ps generalizing qs with
  | nil => exact List.nil_prefix
  | cons p ps ih =>
    obtain ⟨rest, rfl⟩ := h
    cases ps with
    | nil =>
      cases rest with
      | nil => exact List.prefix_rfl
      | cons r rest => exact List.prefix_append p _
    | cons q ps =>
      have htail := ih (List.prefix_append (q :: ps) rest)
      exact (List.prefix_append_right_inj p).2 (List.cons_prefix_cons.2 ⟨rfl, htail⟩)

namespace Path

/-- The first path is that of a directory which the second one leads through. -/
inductive Above : Path → Path → Prop
  | parent {p q : Path} (h : p.parent? = some q) : Above q p
  | further {p q r : Path} (h : p.parent? = some r) (hq : Above q r) : Above q p

variable {p q : Path} {ps : List String} {absolute : Bool}

/-! ## Paths without their last step -/

theorem dropIdleEnd_eq : dropIdleEnd ps = ps.rdropWhile isIdle :=
  rfl

theorem names_concat_idle {piece : String} (h : isIdle piece = true) :
    names (ps ++ [piece]) = names ps := by
  rw [names_append, names_idle h, names_nil, List.append_nil]

theorem names_concat {piece : String} (h : isIdle piece = false) :
    names (ps ++ [piece]) = names ps ++ [piece] := by
  rw [names_append, names_cons h, names_nil]

theorem names_dropIdleEnd : names (dropIdleEnd ps) = names ps := by
  induction ps using List.reverseRecOn with
  | nil => rfl
  | append_singleton ps piece ih =>
    rw [dropIdleEnd_eq, List.rdropWhile_concat]
    split
    case isTrue h => rw [names_concat_idle h, ← dropIdleEnd_eq, ih]
    case isFalse => rfl

theorem names_dropLast_dropIdleEnd : names (dropIdleEnd ps).dropLast = (names ps).dropLast := by
  induction ps using List.reverseRecOn with
  | nil => rfl
  | append_singleton ps piece ih =>
    rw [dropIdleEnd_eq, List.rdropWhile_concat]
    split
    case isTrue h => rw [names_concat_idle h, ← dropIdleEnd_eq, ih]
    case isFalse h => rw [names_concat (Bool.eq_false_iff.2 h), List.dropLast_concat, List.dropLast_concat]

theorem isIdle_here : isIdle "." = true := by
  decide

theorem names_dropIdleTail : names (dropIdleTail absolute ps) = names ps := by
  cases ps with
  | nil => rfl
  | cons piece ps =>
    rw [dropIdleTail]
    split
    case isTrue h =>
      simp only [Bool.and_eq_true, beq_iff_eq] at h
      rw [h.2, names_idle isIdle_here, names_idle isIdle_here, names_dropIdleEnd]
    case isFalse => exact names_dropIdleEnd

theorem names_dropLast_dropIdleTail :
    names (dropIdleTail absolute ps).dropLast = (names ps).dropLast := by
  cases ps with
  | nil => rfl
  | cons piece ps =>
    rw [dropIdleTail]
    split
    case isTrue h =>
      simp only [Bool.and_eq_true, beq_iff_eq] at h
      rw [h.2, names_idle isIdle_here, ← names_dropLast_dropIdleEnd]
      cases dropIdleEnd ps with
      | nil => rfl
      | cons q qs => rw [List.dropLast_cons_cons, names_idle isIdle_here]
    case isFalse => exact names_dropLast_dropIdleEnd

theorem dropIdleTail_front : dropIdleTail absolute ps <+: ps := by
  cases ps with
  | nil => exact List.prefix_rfl
  | cons piece ps =>
    rw [dropIdleTail]
    split
    · exact List.cons_prefix_cons.2 ⟨rfl, List.rdropWhile_prefix _ _⟩
    · exact List.rdropWhile_prefix _ _

theorem isAbsolute_of_front {front : String} (h : front.toList <+: p.text.toList)
    (hp : p.isAbsolute = false) : (Path.mk front).isAbsolute = false := by
  rw [isAbsolute] at hp ⊢
  cases hf : front.toList with
  | nil => rfl
  | cons c cs =>
    rw [hf] at h
    obtain ⟨rest, hrest⟩ := h
    rw [← hrest] at hp
    exact hp

theorem isAbsolute_ofPieces (h : ps <+: p.pieces) :
    (ofPieces p.isAbsolute ps).isAbsolute = p.isAbsolute := by
  cases ha : p.isAbsolute with
  | true => simp [ofPieces, isAbsolute]
  | false =>
    refine isAbsolute_of_front ?_ ha
    rw [pieces, ha] at h
    rw [if_neg Bool.false_ne_true, String.empty_append, ← Text.join_cut '/' p.text, Text.join, Text.join,
      String.toList_ofList, String.toList_ofList]
    exact Text.glue_front (h.map String.toList)

theorem names_ofPieces (h : ∀ piece ∈ ps, '/' ∉ piece.toList) :
    names (Text.cut '/' (ofPieces absolute ps).text) = names ps := by
  have hjoin : names (Text.cut '/' (Text.join '/' ps)) = names ps := by
    cases ps with
    | nil => rfl
    | cons piece ps => rw [Text.cut_join (List.cons_ne_nil _ _) h]
  cases absolute with
  | true =>
    have := cut_append_slash "" (Text.join '/' ps)
    rw [String.empty_append] at this
    rw [ofPieces, if_pos rfl, this, names_append, hjoin]
    rfl
  | false => rwa [ofPieces, if_neg Bool.false_ne_true, String.empty_append]

theorem exists_parent (h : names (Text.cut '/' p.text) ≠ []) : ∃ q, p.parent? = some q := by
  rw [parent?]
  split
  case h_1 hnil =>
    have hnames := @names_dropIdleTail p.pieces p.isAbsolute
    rw [hnil, names_pieces] at hnames
    exact absurd hnames.symm h
  case h_2 => exact ⟨_, rfl⟩

/-- The path of the directory above names all but the last. -/
theorem names_parent (h : p.parent? = some q) : q.isAbsolute = p.isAbsolute ∧
    names (Text.cut '/' q.text) = (names (Text.cut '/' p.text)).dropLast := by
  rw [parent?] at h
  split at h
  case h_1 => cases h
  case h_2 ps _ =>
    cases h
    have hfront : dropIdleTail p.isAbsolute (dropIdleTail p.isAbsolute p.pieces).dropLast <+: p.pieces :=
      (dropIdleTail_front.trans (List.dropLast_prefix _)).trans dropIdleTail_front
    refine ⟨isAbsolute_ofPieces hfront, ?_⟩
    rw [names_ofPieces fun piece hpiece =>
      Text.sep_notMem_of_mem_cut (mem_cut_of_mem_pieces (hfront.subset hpiece)),
      names_dropIdleTail, names_dropLast_dropIdleTail, names_pieces]

/-- A path above another one names less. -/
theorem Above.names (h : q.Above p) : q.isAbsolute = p.isAbsolute ∧
    names (Text.cut '/' q.text) <+: (names (Text.cut '/' p.text)).dropLast := by
  induction h with
  | parent h =>
    obtain ⟨ha, hn⟩ := names_parent h
    exact ⟨ha, hn ▸ List.prefix_rfl⟩
  | further h _ ih =>
    obtain ⟨ha, hn⟩ := names_parent h
    rw [ha, hn] at ih
    exact ⟨ih.1, ih.2.trans (List.dropLast_prefix _)⟩

/-! ## Slashes at the end -/

theorem names_slashes (cs : List Char) :
    names ((Text.pieces '/' (cs.rdropWhile (· == '/'))).map String.ofList) =
      names ((Text.pieces '/' cs).map String.ofList) := by
  induction cs using List.reverseRecOn with
  | nil => rfl
  | append_singleton cs c ih =>
    rw [List.rdropWhile_concat]
    split
    case isTrue h =>
      rw [beq_iff_eq.1 h, Text.pieces_append_cons_sep, List.map_append, ih]
      exact (names_concat_idle rfl).symm
    case isFalse => rfl

/-- Slashes at the end name nothing. -/
theorem names_bare (p : Path) : (Disk.bare p).isAbsolute = p.isAbsolute ∧
    names (Text.cut '/' (Disk.bare p).text) = names (Text.cut '/' p.text) := by
  have hnames := names_slashes p.text.toList
  rw [List.rdropWhile] at hnames
  rw [Disk.bare]
  split
  case h_1 => exact ⟨rfl, rfl⟩
  case h_2 hne =>
    refine ⟨?_, by rw [Text.cut, Text.cut, String.toList_ofList, hnames]⟩
    have hfront : (p.text.toList.reverse.dropWhile (· == '/')).reverse <+: p.text.toList :=
      List.rdropWhile_prefix (· == '/') _
    obtain ⟨rest, hrest⟩ := hfront
    rw [isAbsolute, isAbsolute, String.toList_ofList]
    conv_rhs => rw [← hrest]
    cases hcs : (p.text.toList.reverse.dropWhile (· == '/')).reverse with
    | nil => exact absurd hcs hne
    | cons c cs => rfl

end Path

namespace Disk

variable {d X Y : Disk} {p q : Path} {dir l : Location} {ps : List String} {s : Spot}

theorem heading?_bare (p : Path) : d.heading? (bare p) = d.heading? p :=
  heading?_of_names p.names_bare.1 p.names_bare.2

theorem Walks.entry_of_names_nil {n : Nat} {follow : Bool} (h : d.Walks follow n dir ps s)
    (hps : Path.names ps = []) : s.entry = d.get? dir := by
  induction h with
  | here => rfl
  | idle hp _ ih => exact ih (Path.names_idle hp _ ▸ hps)
  | up => simp [Path.names_cons not_isIdle_up] at hps
  | down hp => simp [Path.names_cons hp.notIdle] at hps
  | missing hp => simp [Path.names_cons hp.notIdle] at hps
  | file hp => simp [Path.names_cons hp.notIdle] at hps
  | stop hp => simp [Path.names_cons hp.notIdle] at hps
  | link hp => simp [Path.names_cons hp.notIdle] at hps

/-! ## Directories on the way to a file -/

/-- A directory that a path above names. -/
def OnWay (d : Disk) (p : Path) (l : Location) : Prop :=
  ∃ q : Path, q.Above p ∧ Path.names (Text.cut '/' q.text) ≠ [] ∧ d.heading? q = some l

theorem made_of_createDirectory (h : d.SameLinks X) (hc : X.createDirectory p = .ok Y)
    (hx : X.get? l = none) (hy : Y.get? l ≠ none) :
    Path.names (Text.cut '/' p.text) ≠ [] ∧ d.heading? p = some l := by
  obtain ⟨s, hf, hnone, hget⟩ := get?_createDirectory hc
  have hl : l = s.location := by
    by_contra hne
    rw [hget, if_neg hne] at hy
    exact hy hx
  have hentry : s.entry = none := (sound_of_find hf).entry_eq.trans hnone
  obtain ⟨hopens, hw⟩ := find_eq_ok_iff.1 hf
  have hfollow : X.find true (bare p) = .ok s := find_followed hf (by simp [hentry])
  refine ⟨fun hn => ?_, ?_⟩
  · have he := hw.entry_of_names_nil (p.names_bare.2.trans hn)
    rw [hentry, hopens.origin] at he
    cases he
  · rw [hl, ← heading?_bare, h.heading?_of_find hfollow]

/-- Only the directory itself and those above it are made. -/
theorem made_of_createUpTo (h : d.SameLinks X) (n : Nat) (hx : X.get? l = none)
    (hy : (createUpTo n X p).2.get? l ≠ none) : ∃ q : Path, (q = p ∨ q.Above p) ∧
      Path.names (Text.cut '/' q.text) ≠ [] ∧ d.heading? q = some l := by
  induction n generalizing X p with
  | zero => exact absurd hx hy
  | succ n ih =>
    rw [createUpTo] at hy
    split at hy
    · exact absurd hx hy
    · split at hy
      case h_1 Z hz => exact ⟨p, .inl rfl, made_of_createDirectory h hz hx hy⟩
      case h_2 =>
        split at hy
        case h_1 => exact absurd hx hy
        case h_2 parent hparent =>
          have hext := extends_createUpTo n X parent
          have hdir := workDir_createUpTo n X parent
          -- What is made for the directory above.
          have above : (createUpTo n X parent).2.get? l ≠ none → ∃ q : Path, (q = p ∨ q.Above p) ∧
              Path.names (Text.cut '/' q.text) ≠ [] ∧ d.heading? q = some l := by
            intro hmade
            obtain ⟨q, hq, hnames, hheads⟩ := ih h hx hmade
            refine ⟨q, .inr ?_, hnames, hheads⟩
            rcases hq with rfl | hq
            · exact .parent hparent
            · exact .further hparent hq
          split at hy
          case h_1 e Z hz =>
            rw [hz] at above
            exact above hy
          case h_2 Z hz =>
            rw [hz] at above hext hdir
            by_cases hmade : Z.get? l = none
            · split at hy
              case h_1 Z' hz' =>
                exact ⟨p, .inl rfl, made_of_createDirectory (h.trans (hext.sameLinks hdir)) hz' hmade hy⟩
              case h_2 => exact absurd hmade hy
            · exact above hmade
      case h_3 => exact absurd hx hy

theorem made_of_makeRoom (h : d.SameLinks X) (hx : X.get? l = none)
    (hy : (Storage.makeRoom p X).2.get? l ≠ none) : d.OnWay p l := by
  rw [Storage.makeRoom] at hy
  split at hy
  case h_1 => exact absurd hx hy
  case h_2 parent hparent =>
    obtain ⟨q, hq, hnames, hheads⟩ := made_of_createUpTo h _ hx hy
    refine ⟨q, ?_, hnames, hheads⟩
    rcases hq with rfl | hq
    · exact .parent hparent
    · exact .further hparent hq

/-- A directory that comes with a file is on the way to it. -/
theorem Touched.made (ht : X.Touched p Y) (h : d.SameLinks X) (hx : X.get? l = none)
    (hy : Y.get? l = some .directory) : d.OnWay p l := by
  rcases ht with rfl | ⟨s, content, hw, hputs⟩
  · exact made_of_makeRoom h hx (by simp [hy])
  · by_cases hl : l = s.location
    · obtain ⟨x, hfile⟩ := hputs.get?_self
      rw [← hl, hy] at hfile
      cases hfile
    · rw [hputs.get?_of_ne hl] at hy
      exact made_of_makeRoom h hx (by simp [hy])

/-! ## Where these directories lie -/

/-- Without links a path that goes down only heads straight down. -/
theorem LinkFree.heading?_of_noUp (h : d.LinkFree) (hup : ".." ∉ Path.names (Text.cut '/' p.text)) :
    d.heading? p = some (d.origin p ++ Path.names (Text.cut '/' p.text)) := by
  have hnames : Path.names (Path.names (Text.cut '/' p.text)) = Path.names (Text.cut '/' p.text) :=
    Path.names_names _
  rw [heading?, ← head_names hnames]
  have hplain := fun onLink => @headWith_plain d onLink (d.origin p) _ (fun l _ _ => h l) hup
  rw [hnames] at hplain
  exact hplain _

/-- The directories on the way to a file lie above it, if its path goes down only. -/
theorem OnWay.above (hway : d.OnWay p l) (h : d.LinkFree) (hup : ".." ∉ Text.cut '/' p.text) :
    ∃ loc, d.heading? p = some loc ∧ l <+: loc ∧ l ≠ loc := by
  obtain ⟨q, hq, hne, hheads⟩ := hway
  obtain ⟨ha, hfront⟩ := hq.names
  have hp : ".." ∉ Path.names (Text.cut '/' p.text) := fun hmem => hup (List.mem_of_mem_filter hmem)
  have hq' : ".." ∉ Path.names (Text.cut '/' q.text) :=
    fun hmem => hp ((List.dropLast_prefix _).subset (hfront.subset hmem))
  rw [h.heading?_of_noUp hq', origin, ha, ← origin] at hheads
  cases hheads
  refine ⟨_, h.heading?_of_noUp hp, ?_, fun he => ?_⟩
  · exact (List.prefix_append_right_inj _).2 (hfront.trans (List.dropLast_prefix _))
  · have hlen := hfront.length_le
    rw [← List.append_cancel_left he, List.length_dropLast] at hlen
    have hpos := List.length_pos_iff.2 hne
    omega

end Disk

end LocaleForge
