import LocaleForge.Proofs.Answers
import LocaleForge.Proofs.Cleaning

/-!
Trees without links. Where a path heads does not depend on such a tree, and a file that two of them
have in common is found by the same paths below a directory that they have in common.
-/

namespace LocaleForge.Disk

/-- No link lies in the tree. -/
def LinkFree (d : Disk) : Prop :=
  ∀ loc target, d.get? loc ≠ some (.link target)

variable {d d' X Y : Disk} {region region' whole : Location → Prop} {p q : Path}
  {dir loc : Location} {ps rs : List String} {e : Entry} {b : Bool} {n : Nat}

theorem linkFree_of_entries (h : ∀ x ∈ d.entries, x.2.isFile = true ∨ x.2 = .directory) : d.LinkFree := by
  intro loc target hg
  by_cases hloc : loc = []
  · rw [hloc, get?_root] at hg
    cases hg
  · rcases h _ ((get?_eq_some_iff hloc).1 hg) with he | he <;> cases he

theorem LinkFree.of_keeps (h : d.LinkFree) (hk : d'.Keeps d) : d'.LinkFree := by
  intro loc target hg
  exact h loc target (hk.get? hg rfl)

theorem Grown.linkFree (h : d.Grown region X) (hd : d.LinkFree) : X.LinkFree :=
  fun loc target hx => hd loc target (h.get?_link_iff.1 hx)

theorem Grown.trans (h : d.Grown region X) (h' : X.Grown region' Y)
    (hr : ∀ l, region l → whole l) (hr' : ∀ l, region' l → whole l) : d.Grown whole Y where
  workDir := h'.workDir.trans h.workDir
  kept hd := by
    obtain ⟨e, hx, hl, hsame⟩ := h.kept hd
    obtain ⟨e', hy, hl', hsame'⟩ := h'.kept hx
    refine ⟨e', hy, hl.trans hl', fun hout => ?_⟩
    rw [hsame' fun hin => hout (hr' _ hin), hsame fun hin => hout (hr _ hin)]
  added hy := by
    rcases h'.added hy with hx | hx | ⟨hin, hx⟩
    · rcases h.added hx with hd | hd | ⟨hin, hd⟩
      · exact .inl hd
      · exact .inr (.inl hd)
      · exact .inr (.inr ⟨hr _ hin, hd⟩)
    · exact .inr (.inl hx)
    · exact .inr (.inr ⟨hr' _ hin, hx⟩)

/-! ## Headings -/

theorem LinkFree.headWith_eq (h : d.LinkFree) (h' : d'.LinkFree)
    {onHead onHead' : Location → List String → Option Location} :
    headWith d onHead dir ps = headWith d' onHead' dir ps := by
  induction ps generalizing dir with
  | nil => rfl
  | cons p ps ih =>
    cases hidle : Path.isIdle p with
    | true => rw [headWith_idle hidle, headWith_idle hidle, ih]
    | false =>
      by_cases hp : p = ".."
      · rw [hp, headWith_up, headWith_up, ih]
      · rw [headWith_down hidle hp (h _), headWith_down hidle hp (h' _), ih]

/-- Without links every path heads to the same location in all trees. -/
theorem LinkFree.heading?_eq (h : d.LinkFree) (h' : d'.LinkFree) (hw : d'.workDir = d.workDir)
    (p : Path) : d'.heading? p = d.heading? p := by
  rw [heading?, heading?, origin, origin, hw]
  exact h'.headWith_eq h

/-! ## Files in common -/

theorem LinkFree.walk_append (h : d.LinkFree) {s : Spot} (hw : d.Walks true n dir ps s)
    (hs : s.entry = some .directory) : walk d true n dir (ps ++ rs) = walk d true n s.location rs := by
  induction hw with
  | here => rfl
  | idle hp _ ih => exact (walk_idle hp).trans (ih hs)
  | up _ ih => exact walk_up.trans (ih hs)
  | down hp hg _ ih => exact (walk_directory hp hg).trans (ih hs)
  | missing => cases hs
  | file => cases hs
  | stop => cases hs
  | link _ hg => exact absurd hg (h _ _)

/-- What is found below a directory is found through the directory. -/
theorem walks_front {qs : List String} (hqs : qs = ps ++ rs) (hrs : rs ≠ [])
    (hdir : d.get? dir = some .directory) {s : Spot} (hw : d.Walks true n dir qs s)
    (hs : s.entry = some e) : ∃ dir', d.Walks true n dir ps ⟨dir', some .directory, false⟩ := by
  induction hw generalizing ps with
  | here => simp [hrs] at hqs
  | @idle n dir q _ _ hp _ ih =>
    cases ps with
    | nil => exact ⟨dir, hdir ▸ .here n dir⟩
    | cons p ps =>
      obtain ⟨rfl, hrest⟩ := List.cons.inj hqs
      exact (ih hrest hdir hs).imp fun _ => .idle hp
  | @up n dir _ _ _ ih =>
    cases ps with
    | nil => exact ⟨dir, hdir ▸ .here n dir⟩
    | cons p ps =>
      obtain ⟨rfl, hrest⟩ := List.cons.inj hqs
      exact (ih hrest (get?_dropLast hdir) hs).imp fun _ => .up
  | @down n dir q _ _ hp hg _ ih =>
    cases ps with
    | nil => exact ⟨dir, hdir ▸ .here n dir⟩
    | cons p ps =>
      obtain ⟨rfl, hrest⟩ := List.cons.inj hqs
      exact (ih hrest hg hs).imp fun _ => .down hp hg
  | missing => cases hs
  | @file n dir _ qs _ _ hp hg hempty =>
    cases ps with
    | nil => exact ⟨dir, hdir ▸ .here n dir⟩
    | cons p ps =>
      obtain ⟨-, rfl⟩ := List.cons.inj hqs
      simp [hrs] at hempty
  | stop _ _ hempty => simp at hempty
  | @link n dir q qs _ target hp hg hempty _ ih =>
    cases ps with
    | nil => exact ⟨dir, hdir ▸ .here _ dir⟩
    | cons p ps =>
      obtain ⟨rfl, hrest⟩ := List.cons.inj hqs
      -- The walk goes on along the target of the link, from its root or from this directory.
      have hbase : d.get? (if (Path.mk target).isAbsolute then [] else dir) = some .directory := by
        split
        · exact get?_root d
        · exact hdir
      obtain ⟨dir', hfront⟩ := ih (by rw [hrest]; exact (List.append_assoc _ _ _).symm) hbase hs
      exact ⟨dir', .link hp hg (by simp) hfront⟩

/-- A slash at the end of the path of a directory does not matter. -/
theorem Walks.slash {s : Spot} (hw : d.Walks true n dir ps s) (hs : s.entry = some .directory) :
    d.Walks true n dir (ps ++ [""]) s := by
  induction hw with
  | here n dir => exact .idle rfl (.here n dir)
  | idle hp _ ih => exact .idle hp (ih hs)
  | up _ ih => exact .up (ih hs)
  | down hp hg _ ih => exact .down hp hg (ih hs)
  | missing => cases hs
  | file => cases hs
  | stop => cases hs
  | link hp hg _ _ ih =>
    refine .link hp hg (by simp) ?_
    have hlink := ih hs
    rwa [List.append_assoc] at hlink

/-- The way down to a file is the same in every tree that has the file. -/
theorem walks_of_file (hx : X.LinkFree) (hup : ".." ∉ ps) {content : ByteArray} {x : Bool} {s : Spot}
    (hloc : d.get? s.location = some (.file content x))
    (hloc' : X.get? s.location = some (.file content x)) (hdir : X.get? dir = some .directory)
    (hw : X.Walks true n dir ps s) : dir <+: s.location ∧ d.Walks true n dir ps s := by
  induction hw with
  | here =>
    rw [hdir] at hloc'
    cases hloc'
  | idle hp _ ih =>
    obtain ⟨hbelow, hw⟩ := ih (fun hmem => hup (List.mem_cons_of_mem _ hmem)) hloc hloc' hdir
    exact ⟨hbelow, .idle hp hw⟩
  | up => simp at hup
  | @down _ dir p _ s hp hg _ ih =>
    obtain ⟨hbelow, hw⟩ := ih (fun hmem => hup (List.mem_cons_of_mem _ hmem)) hloc hloc' hg
    have hne : s.location ≠ dir ++ [p] := by
      intro he
      rw [he, hg] at hloc'
      cases hloc'
    have hd : d.get? (dir ++ [p]) = some .directory :=
      get?_of_isBelow (by simp [isBelow, hbelow, hne]) hloc
    exact ⟨(List.prefix_append dir [p]).trans hbelow, .down hp hd hw⟩
  | missing _ hg =>
    rw [hg] at hloc'
    cases hloc'
  | @file _ dir p _ _ _ hp hg hps =>
    rw [hg] at hloc'
    cases hloc'
    exact ⟨List.prefix_append dir [p], .file hp hloc hps⟩
  | stop _ hg => exact absurd hg (hx _ _)
  | link _ hg => exact absurd hg (hx _ _)

/-- The walk along a path that is joined to the path of a directory begins anew in the directory. -/
theorem LinkFree.walk_join (h : d.LinkFree) (hq : d.find true q = .ok ⟨dir, some .directory, b⟩)
    {rel : String} (hrel : (Path.mk rel).isAbsolute = false) :
    walk d true maxLinks (d.origin (q.join rel)) (Text.cut '/' (q.join rel).text) =
      walk d true maxLinks dir (Text.cut '/' rel) := by
  obtain ⟨ps, hps, hj⟩ := q.cut_join hrel
  have ho := d.origin_join q hrel
  obtain ⟨hopens, hw⟩ := find_eq_ok_iff.1 hq
  rw [ho, hj]
  rcases hps with hps | hps
  · rw [hps] at hw
    rw [h.walk_append hw rfl]
  · -- The empty piece after a slash at the end is walked in the directory.
    rw [hps] at hw
    obtain ⟨dir', hfront⟩ := walks_front rfl (List.cons_ne_nil "" []) hopens.origin hw rfl
    have hslash := hw.walk_eq
    rw [h.walk_append hfront rfl, walk_idle rfl, walk_nil, Except.ok.injEq, Spot.mk.injEq] at hslash
    rw [h.walk_append hfront rfl, hslash.1]

/-- A file below a directory is found by the same path in every tree that has both. -/
theorem find_join_of_file (hd : d.LinkFree) (hg : d.Grown whole X)
    (hq : d.find true q = .ok ⟨dir, some .directory, b⟩) {rel : String} (hrel : Path.Plain rel)
    {content : ByteArray} {x b' : Bool} (hloc : d.get? loc = some (.file content x))
    (hf : X.find true (q.join rel) = .ok ⟨loc, some (.file content x), b'⟩) :
    d.find true (q.join rel) = .ok ⟨loc, some (.file content x), b'⟩ := by
  have hx := hg.linkFree hd
  obtain ⟨e', hl, hq'⟩ := hg.keeps.find hq
  obtain rfl := hl.eq_of_not_isFile rfl
  obtain ⟨hopens, hw⟩ := find_eq_ok_iff.1 hf
  have ho := d.origin_join q hrel.relative
  have hopens' : d.Opens (q.join rel) :=
    ⟨hopens.noNul, hopens.notEmpty, hopens.short, ho ▸ (opens_of_find hq).origin⟩
  have hloc' := (sound_of_find hf).entry_eq.symm
  have hdir := (sound_of_find hq').entry_eq.symm
  rw [← walk_eq_ok_iff, hx.walk_join hq' hrel.relative, walk_eq_ok_iff] at hw
  rw [hopens'.find, hd.walk_join hq hrel.relative, walk_eq_ok_iff]
  exact (walks_of_file hx hrel.noUp hloc hloc' hdir hw).2

/-! ## Paths to directories and below them -/

/-- A front of a path that can be walked can be walked. -/
theorem Opens.front (h : d.Opens p) {rest : String} (ht : p.text = q.text ++ rest) (hq : q.text ≠ "")
    (ha : q.isAbsolute = p.isAbsolute) : d.Opens q := by
  have hnul := h.noNul
  have hshort := h.short
  rw [ht] at hnul hshort
  refine ⟨?_, by simpa using hq, ?_, ?_⟩
  · simp only [String.toList_append, List.contains_eq_mem, List.mem_append, decide_eq_false_iff_not,
      not_or] at hnul ⊢
    exact hnul.1
  · rw [String.utf8ByteSize_append] at hshort
    omega
  · rw [Disk.origin, ha, ← Disk.origin]
    exact h.origin

theorem opens_of_join {rel : String} (hrel : (Path.mk rel).isAbsolute = false) (hq : q.text ≠ "")
    (h : d.Opens (q.join rel)) : d.Opens q := by
  obtain ⟨rest, hrest⟩ := q.text_prefix_join hrel
  exact h.front hrest hq (q.isAbsolute_join hrel).symm

/-- Where something is found below a path, this path heads to a directory. -/
theorem directory_of_join {rel : String}
    (hrel : (Path.mk rel).isAbsolute = false) (hq : d.heading? q = some dir)
    (hf : d.find true (q.join rel) = .ok ⟨loc, some e, b⟩) : d.get? dir = some .directory := by
  obtain ⟨ps, hps, hj⟩ := q.cut_join hrel
  have ho := d.origin_join q hrel
  obtain ⟨hopens, hw⟩ := find_eq_ok_iff.1 hf
  have horigin := hopens.origin
  rw [hj, ho] at hw
  rw [ho] at horigin
  obtain ⟨dir', hfront⟩ := walks_front rfl (Text.cut_ne_nil '/' rel) horigin hw rfl
  have hself := (Grown.refl d fun _ => False).sameLinks
  have hhead : d.head maxLinks (d.origin q) ps = some dir' := hself.head_of_walks hfront
  rw [heading?, head_names (Path.names_front hps), hhead, Option.some.injEq] at hq
  have hsep : ∀ p ∈ ps, '/' ∉ p.toList := by
    intro p hp
    rcases hps with hps | hps
    · exact Text.sep_notMem_of_mem_cut (hps ▸ hp)
    · exact Text.sep_notMem_of_mem_cut (hps ▸ List.mem_append_left [""] hp)
  have hsound : Spot.Sound d ⟨dir', some .directory, false⟩ :=
    sound_of_walk horigin hsep hfront.walk_eq
  rw [← hq]
  exact hsound.entry_eq.symm

/-- Where something lies below a path, this path leads to a directory. -/
theorem find_of_join {rel : String} (hrel : (Path.mk rel).isAbsolute = false) (hq : q.text ≠ "")
    (hf : d.find true (q.join rel) = .ok ⟨loc, some e, b⟩) :
    ∃ dir, d.find true q = .ok ⟨dir, some .directory, false⟩ := by
  obtain ⟨ps, hps, hj⟩ := q.cut_join hrel
  have ho := d.origin_join q hrel
  obtain ⟨hopens, hw⟩ := find_eq_ok_iff.1 hf
  have hopens' := opens_of_join hrel hq hopens
  rw [hj, ho] at hw
  obtain ⟨dir', hfront⟩ := walks_front rfl (Text.cut_ne_nil '/' rel) hopens'.origin hw rfl
  refine ⟨dir', find_eq_ok_iff.2 ⟨hopens', ?_⟩⟩
  rcases hps with hps | hps
  · rwa [hps]
  · rw [hps]
    exact hfront.slash rfl

theorem exists?_of_join {rel : String} (hrel : (Path.mk rel).isAbsolute = false) (hq : q.text ≠ "")
    (hx : d.exists? (q.join rel) = true) : d.exists? q = true := by
  obtain ⟨loc, e, b, hf⟩ := exists?_eq_true_iff.1 hx
  obtain ⟨dir, hdir⟩ := find_of_join hrel hq hf
  exact exists?_eq_true_iff.2 ⟨dir, .directory, false, hdir⟩

/-- What is written below a path is written below something that exists. -/
theorem Wrote.exists?_above {rel : String} {content : ByteArray} (hw : d.Wrote (q.join rel) loc content X)
    (hrel : (Path.mk rel).isAbsolute = false) (hq : q.text ≠ "") : X.exists? q = true := by
  obtain ⟨e, b, hf⟩ := hw.find
  exact exists?_of_join hrel hq (exists?_eq_true_iff.2 ⟨loc, e, b, hf⟩)

/-- A directory below a directory is found by the joined path. -/
theorem LinkFree.exists?_join (h : d.LinkFree) {name : String} (hname : Path.Simple name)
    (hshort : ¬ maxName < name.utf8ByteSize) (hopens : d.Opens (q.join name))
    (hq : d.find true q = .ok ⟨dir, some .directory, b⟩)
    (hdir : d.get? (dir ++ [name]) = some .directory) : d.exists? (q.join name) = true := by
  refine exists?_eq_true_iff.2 ⟨dir ++ [name], .directory, false, ?_⟩
  rw [hopens.find, h.walk_join hq hname.relative, hname.cut,
    walk_directory ⟨hname.notIdle, hname.notUp, hshort⟩ hdir, walk_nil, hdir]

/-! ## Cleaning -/

theorem LinkFree.walkWith_follow (h : d.LinkFree)
    {onLink onLink' : Location → List String → Except Fault Spot} {follow : Bool} :
    walkWith d follow onLink dir ps = walkWith d true onLink' dir ps := by
  induction ps generalizing dir with
  | nil => rfl
  | cons p ps ih =>
    simp only [walkWith]
    split
    · exact ih
    · split
      · exact ih
      · split
        · rfl
        · split
          case h_1 => rfl
          case h_2 => exact ih
          case h_3 => rfl
          case h_4 target hg => exact absurd hg (h _ target)

theorem LinkFree.find_follow (h : d.LinkFree) (follow : Bool) (p : Path) :
    d.find follow p = d.find true p := by
  have hwalk : ∀ n dir ps, walk d follow n dir ps = walk d true n dir ps := by
    intro n
    cases n with
    | zero => exact fun _ _ => h.walkWith_follow
    | succ n => exact fun _ _ => h.walkWith_follow
  simp only [find, hwalk]

theorem removeEmptied_eq (d : Disk) (p : Path) (loc : Location) :
    (d.removeEmptied p loc).2 = d ∨ (d.removeEmptied p loc).2 = d.erase loc := by
  rw [removeEmptied]
  split
  case h_5 =>
    split
    · exact .inl rfl
    · exact .inr rfl
  all_goals exact .inl rfl

/-- Without links, clearing removes at most what lies where the path heads, and all that is below. -/
theorem LinkFree.cleared_cases (h : d.LinkFree) (hh : d.heading? p = some loc) :
    d.exists? p = false ∧ d.cleared p = d ∨
      d.exists? p = true ∧ (d.cleared p = d ∧ d.get? loc ≠ some .directory ∨
        d.cleared p = d.eraseBelow loc ∨ d.cleared p = d.erase loc) := by
  cases hx : d.exists? p with
  | false => exact .inl ⟨rfl, by rw [cleared, hx]; rfl⟩
  | true =>
    refine .inr ⟨rfl, ?_⟩
    obtain ⟨l, e, b, hf⟩ := exists?_eq_true_iff.1 hx
    have hl : l = loc := by
      have := (Grown.refl d fun _ => False).heading?_of_find hf
      rw [hh] at this
      exact (Option.some.inj this).symm
    subst hl
    have hs := (sound_of_find hf).entry_eq
    rw [cleared, hx, if_pos rfl, removeTree, h.find_follow, hf]
    cases e with
    | file content x => exact .inl ⟨rfl, by simp [← hs]⟩
    | link target => exact absurd hs.symm (h _ target)
    | directory =>
      right
      rcases removeEmptied_eq (d.eraseBelow l) p l with he | he
      · exact .inl he
      · rw [erase_eraseBelow] at he
        exact .inr he

theorem LinkFree.get?_cleared_of_not_prefix (h : d.LinkFree) (hh : d.heading? p = some loc)
    {l : Location} (hl : ¬ loc <+: l) : (d.cleared p).get? l = d.get? l := by
  rcases h.cleared_cases hh with ⟨-, he⟩ | ⟨-, ⟨he, -⟩ | he | he⟩
  · rw [he]
  · rw [he]
  · rw [he, get?_eraseBelow, if_neg]
    exact fun hb => hl (isBelow_iff.1 hb).1
  · by_cases hnil : l = []
    · simp [hnil]
    · rw [he, get?_erase hnil, if_neg]
      exact fun hp => hl (List.isPrefixOf_iff_prefix.1 hp)

/-- Nothing is left below a path that led to something. -/
theorem LinkFree.get?_cleared_below (h : d.LinkFree) (hh : d.heading? p = some loc)
    (hx : d.exists? p = true) {l : Location} (hl : isBelow loc l = true) :
    (d.cleared p).get? l = none := by
  rcases h.cleared_cases hh with ⟨hn, -⟩ | ⟨-, ⟨he, hdir⟩ | he | he⟩
  · rw [hx] at hn
    cases hn
  · rw [he, get?_eq_none_of_isBelow hl hdir]
  · rw [he, get?_eraseBelow, if_pos hl]
  · obtain ⟨hp, hne⟩ := isBelow_iff.1 hl
    rw [he, get?_erase, if_pos (List.isPrefixOf_iff_prefix.2 hp)]
    rintro rfl
    exact hne (List.prefix_nil.1 hp).symm

end LocaleForge.Disk
