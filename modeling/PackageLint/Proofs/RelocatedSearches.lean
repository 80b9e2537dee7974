import PackageLint.Proofs.Relocations

/-!
# Searches in two directories

A pattern below a package directory is matched as a text, with the path of the directory as its
literal start. Where that path has no wildcard, it matches nothing but itself, and what the wildcards
stand for depends on the way within only. The top directory that a search starts from is cut off the
pattern before its last separator of any kind, so it lies within the package, or is the package
directory, or, for a name that is `..` before a backslash, the directory above. From there a walk
comes upon the files of the package in the order in which the package lists them.

## Main results

* `Path.captures?_at` — what the wildcards of a pattern stand for
* `Path.exists_topDir` — the directory that a search starts from
* `Relocated.found_within` — walks through directories that correspond
* `Relocated.expanded` — searches that correspond find files that correspond
-/

namespace PackageLint

open PackageLint.Path

/-! ### Texts with a literal start -/

namespace Text

variable {c : Char}

theorem split_append {start : List Char} (h : c ∉ start) (rest : List Char) :
    split c (start ++ rest) = (start ++ (split c rest).1, (split c rest).2) := by
  induction start with
  | nil => rfl
  | cons x start ih =>
    obtain ⟨hx, hstart⟩ : c ≠ x ∧ c ∉ start := by simpa using h
    rw [List.cons_append, split, ih hstart, if_neg (Ne.symm hx)]
    rfl

theorem dropStart?_append_append (start part cs : List Char) :
    dropStart? (start ++ part) (start ++ cs) = dropStart? part cs := by
  induction start with
  | nil => rfl
  | cons x start ih => simp [dropStart?, ih]

/-- The pieces of a text are those of what it starts with, up to the last of these. -/
theorem exists_pieces_append_left (c : Char) (start rest : List Char) :
    ∃ others, pieces c (start ++ rest) = (pieces c start).dropLast ++ others := by
  induction start with
  | nil => exact ⟨pieces c rest, rfl⟩
  | cons x start ih =>
    obtain ⟨others, hothers⟩ := ih
    have hne : pieces c start ≠ [] := by simp [pieces]
    by_cases hx : x = c
    · subst hx
      refine ⟨others, ?_⟩
      rw [List.cons_append, pieces_cons_self, pieces_cons_self, hothers,
        List.dropLast_cons_of_ne_nil hne]
      rfl
    · rw [List.cons_append, pieces_cons_of_ne hx, pieces_cons_of_ne hx]
      by_cases hlast : (split c start).2 = []
      · exact ⟨_, by rw [hlast]; rfl⟩
      · refine ⟨others, ?_⟩
        rw [pieces, pieces] at hothers
        rw [List.dropLast_cons_of_ne_nil hlast] at hothers ⊢
        obtain ⟨hfirst, hrest⟩ := List.cons.inj hothers
        rw [hfirst, hrest]
        rfl

end Text

namespace Path

/-! ### Patterns below a directory -/

theorem Dir.stem_append_slash (d : Dir) (rest : List Char) :
    d.stem ++ '/' :: rest = appendPart d.path.toList rest := by
  have hslash : d.stem ++ '/' :: rest = (d.stem ++ ['/']) ++ rest := by simp
  rw [hslash, d.stem_slash, ← toList_ofNames, ← Dir.path, appendPart, appendPart]
  split <;> simp

theorem Dir.stem_subset (d : Dir) : d.stem ⊆ d.path.toList := by
  rw [stem, path, toList_ofNames]
  split
  next hroot =>
    intro c hc
    rw [List.eq_of_mem_replicate hc, hroot]
    rcases d.isRoot with hk | hk <;> rw [hk] <;> decide
  next => exact List.Subset.refl _

theorem toList_slashed_at (d : Dir) (i : Inner) :
    (slashed (d.at i)).toList
      = (slashed (String.ofList d.stem)).toList ++ (slashed (String.ofList i.text)).toList := by
  simp [slashed, Text.exchange]

/-- What the wildcards of a pattern below a directory stand for in a path within it. -/
theorem captures?_at {d : Dir} (hd : '*' ∉ d.path.toList) (j i : Inner) :
    (Pattern.ofText (slashed (d.at j))).captures? (slashed (d.at i))
      = (Pattern.ofText (slashed (String.ofList j.text))).captures?
          (slashed (String.ofList i.text)) := by
  have hstar : '*' ∉ (slashed (String.ofList d.stem)).toList := by
    simp only [slashed, Text.exchange, String.toList_ofList, List.mem_map, not_exists, not_and]
    intro c hc
    split
    · decide
    · rintro rfl
      exact hd (d.stem_subset hc)
  have hsplit := Text.split_append hstar (slashed (String.ofList j.text)).toList
  simp only [Pattern.captures?, Pattern.match?, Pattern.ofText, Pattern.ofChars,
    toList_slashed_at, hsplit, Text.dropStart?_append_append]

/-! ### The directory that a search starts from -/

/-- The text of a head before the last separator of its first line. -/
def cut (head : List Char) : List Char :=
  ((head.takeWhile (· ≠ '\n')).reverse.dropWhile (fun c => !Pattern.isSeparator c)).tail.reverse

/-- The top directory of a head with a literal start that ends in front of a slash. -/
theorem topDirChars?_append {start head : List Char} (hstart : '\n' ∉ start) :
    Pattern.topDirChars? (start ++ '/' :: head)
      = if start = [] ∧ cut ('/' :: head) = [] then none
        else some (start ++ cut ('/' :: head)) := by
  have htake : (start ++ '/' :: head).takeWhile (· ≠ '\n')
      = start ++ ('/' :: head).takeWhile (· ≠ '\n') := by
    rw [List.takeWhile_append_of_pos]
    intro c hc
    simpa using fun heq : c = '\n' => hstart (heq ▸ hc)
  obtain ⟨line, hline⟩ : ∃ line, ('/' :: head).takeWhile (· ≠ '\n') = '/' :: line :=
    ⟨_, List.takeWhile_cons_of_pos (by decide)⟩
  -- the slash in front of the head is a separator, so that one is found behind the start
  obtain ⟨sep, before, hdrop⟩ : ∃ sep before,
      ('/' :: line).reverse.dropWhile (fun c => !Pattern.isSeparator c) = sep :: before := by
    refine List.exists_cons_of_ne_nil ?_
    rw [Ne, List.dropWhile_eq_nil_iff]
    intro hall
    have := hall '/' (by simp)
    simp [Pattern.isSeparator] at this
  have hwhole : ((start ++ '/' :: head).takeWhile (· ≠ '\n')).reverse.dropWhile
      (fun c => !Pattern.isSeparator c) = sep :: (before ++ start.reverse) := by
    rw [htake, hline, List.reverse_append, List.dropWhile_append, hdrop]
    rfl
  rw [Pattern.topDirChars?, hwhole, cut, hline, hdrop]
  simp only [List.tail_cons, List.reverse_eq_nil_iff, List.isEmpty_iff, List.append_eq_nil_iff,
    List.reverse_append, List.reverse_reverse]
  simp only [and_comm]

/-- What is cut off ends in front of a separator. -/
theorem exists_eq_cut_append (head : List Char) (h : ∃ c ∈ head.takeWhile (· ≠ '\n'),
    Pattern.isSeparator c = true) : ∃ sep rest, head = cut head ++ sep :: rest := by
  obtain ⟨sep, before, hdrop⟩ : ∃ sep before,
      (head.takeWhile (· ≠ '\n')).reverse.dropWhile (fun c => !Pattern.isSeparator c)
        = sep :: before := by
    refine List.exists_cons_of_ne_nil ?_
    obtain ⟨c, hc, hsep⟩ := h
    rw [Ne, List.dropWhile_eq_nil_iff]
    intro hall
    have := hall c (by simpa using hc)
    simp [hsep] at this
  obtain ⟨behind, hbehind⟩ := List.dropWhile_suffix (l := (head.takeWhile (· ≠ '\n')).reverse)
    fun c => !Pattern.isSeparator c
  obtain ⟨others, hothers⟩ := List.takeWhile_prefix (l := head) (· ≠ '\n')
  refine ⟨sep, behind.reverse ++ others, ?_⟩
  rw [hdrop] at hbehind
  have hline := congrArg List.reverse hbehind
  rw [List.reverse_reverse] at hline
  rw [cut, hdrop, ← hothers, ← hline]
  simp

theorem Inner.exists_text_eq_cons (i : Inner) :
    ∃ rest, i.text = '/' :: rest ∧ rest.head? ≠ some '/' := by
  by_cases h : i.names = []
  · exact ⟨[], i.text_root h, by simp⟩
  · refine ⟨['/'].intercalate i.names ++ if i.slash then ['/'] else [], i.text_eq h, ?_⟩
    have hhead := head?_intercalate (fun s hs => (i.isNames s hs).no_slash)
      fun s hs => (i.isNames s hs).ne_nil
    cases hinter : ['/'].intercalate i.names with
    | nil =>
      obtain ⟨s, rest, hnames⟩ := List.exists_cons_of_ne_nil h
      have hs := (i.isNames s (by simp [hnames])).ne_nil
      rw [hnames] at hinter
      cases rest <;> simp [List.intercalate, List.intersperse, hs] at hinter
    | cons c rest =>
      rw [hinter] at hhead
      simpa using hhead

/-- The pieces of a way are its names, and empty ones. -/
theorem Inner.isName_of_mem_pieces (i : Inner) {s : Segment} (hs : s ∈ Text.pieces '/' i.text)
    (hne : s ≠ []) : IsName s := by
  have hall : (Text.pieces '/' (ofSegments 1 i.names)).filter (· ≠ []) = i.names :=
    filter_pieces_ofSegments i.isNames
  have hpieces : (Text.pieces '/' i.text).filter (· ≠ []) = i.names := by
    by_cases h : i.names = []
    · rw [i.text_root h, h]
      decide
    · rw [i.text_eq h]
      split
      · rw [Text.pieces_append_sep, List.filter_append, hall]
        simp [Text.pieces, Text.split]
      · rw [List.append_nil, hall]
  exact i.isNames s (hpieces ▸ List.mem_filter.mpr ⟨hs, by simpa using hne⟩)

/-- What a text below a directory leads through, up to its last piece. -/
theorem normalSegments_below (d : Dir) {text : List Char} {front : List Segment} {t : Segment}
    (hhead : text.head? ≠ some '/') (hpieces : Text.pieces '/' text = front ++ [t])
    (hfront : ∀ s ∈ front, s ≠ [] → IsName s) :
    normalSegments (d.stem ++ '/' :: text)
      = (pushSegment true (d.names ++ front.filter (· ≠ [])).reverse t).reverse := by
  have hroot : (rootSlashes d.path.toList != 0) = true := by
    rw [Dir.path, toList_ofNames, rootSlashes_ofNames d.isRoot.le d.isNames]
    simpa using d.isRoot.ne_zero
  have hup : up ∉ front := fun hmem => (hfront up hmem (by decide)).ne_up rfl
  have hfilter : (front.filter fun s => s ≠ [] && s ≠ ['.']) = front.filter (· ≠ []) := by
    refine List.filter_congr fun s hs => ?_
    by_cases hs' : s = []
    · simp [hs']
    · simpa [hs'] using (hfront s hs hs').ne_here
  rw [d.stem_append_slash, normalSegments_appendPart _ hhead, hroot, hpieces, List.foldl_append,
    foldl_pushSegment_filter true hup, hfilter, Dir.path, toList_ofNames,
    normalSegments_ofNames d.isRoot.le d.isNames, List.reverse_append]
  rfl

/-- The normal form of a text below a directory, by its segments. -/
theorem normalize_below (d : Dir) {text : List Char} {names : List Segment} (hn : Names names)
    (hhead : text.head? ≠ some '/') (hsegments : normalSegments (d.stem ++ '/' :: text) = names) :
    normalize (String.ofList (d.stem ++ '/' :: text)) = ofNames d.slashes names := by
  have hroot : rootSlashes (d.stem ++ '/' :: text) = d.slashes := by
    rw [d.stem_append_slash, rootSlashes_appendPart _ hhead, Dir.path, toList_ofNames,
      rootSlashes_ofNames d.isRoot.le d.isNames]
  rw [normalize, String.toList_ofList, ofNames, ← normalizeChars_ofNames d.isRoot hn]
  refine congrArg String.ofList (normalizeChars_congr ?_ ?_)
  · rw [hroot, rootSlashes_ofNames d.isRoot.le hn]
  · rw [hsegments, normalSegments_ofNames d.isRoot.le hn]

theorem pushSegment_up {names : List Segment} (h : Names names) :
    pushSegment true names.reverse up = names.dropLast.reverse := by
  rcases List.eq_nil_or_concat' names with rfl | ⟨front, s, rfl⟩
  · decide
  · have hs := (names_singleton.mp (names_append.mp h).2).ne_up
    simp [pushSegment, up, hs]

/-- What a way is cut to leads within the directory, or for `..` to the directory above. -/
theorem normalize_cut (j : Inner) {text rest : List Char} {sep : Char}
    (h : j.text = ('/' :: text) ++ sep :: rest) :
    (∃ dir, Names dir ∧ ∀ d : Dir,
        normalize (String.ofList (d.stem ++ '/' :: text)) = ofNames d.slashes (d.names ++ dir))
      ∨ ∀ d : Dir, normalize (String.ofList (d.stem ++ '/' :: text))
          = ofNames d.slashes d.names.dropLast := by
  have hhead : text.head? ≠ some '/' := by
    obtain ⟨others, hothers, hne⟩ := j.exists_text_eq_cons
    rw [hothers, List.cons_append, List.cons.injEq] at h
    intro heq
    refine hne ?_
    rw [h.2, List.head?_append, heq, Option.some_or]
  obtain ⟨front, t, hpieces⟩ :=
    (List.eq_nil_or_concat' (Text.pieces '/' text)).resolve_left (by simp [Text.pieces])
  have hslash : '/' ∉ t := Text.not_mem_of_mem_pieces (by rw [hpieces]; simp)
  have hfront : ∀ s ∈ front, s ≠ [] → IsName s := by
    intro s hs hne
    obtain ⟨others, hothers⟩ := Text.exists_pieces_append_left '/' text (sep :: rest)
    refine j.isName_of_mem_pieces ?_ hne
    rw [h, List.cons_append, Text.pieces_cons_self, hothers, hpieces, List.dropLast_concat]
    simp [hs]
  have hnames : Names (front.filter (· ≠ [])) := by
    intro s hs
    obtain ⟨hmem, hne⟩ := List.mem_filter.mp hs
    exact hfront s hmem (by simpa using hne)
  have hsegments := fun d : Dir => normalSegments_below d hhead hpieces hfront
  generalize front.filter (· ≠ []) = dir at hnames hsegments
  have hall := fun d : Dir => d.isNames.append hnames
  by_cases hskip : t = [] ∨ t = ['.']
  · refine Or.inl ⟨dir, hnames, fun d => normalize_below d (hall d) hhead ?_⟩
    rw [hsegments, pushSegment.eq_def, if_pos (by simpa using hskip), List.reverse_reverse]
  · obtain ⟨hnil, hdot⟩ := not_or.mp hskip
    by_cases hup : t = up
    · have hdrop (d : Dir) : normalSegments (d.stem ++ '/' :: text) = (d.names ++ dir).dropLast := by
        rw [hsegments, hup, pushSegment_up (hall d), List.reverse_reverse]
      have hlast (d : Dir) : Names (d.names ++ dir).dropLast :=
        (hall d).of_subset (List.dropLast_subset _)
      by_cases hdir : dir = []
      · refine Or.inr fun d => ?_
        have := normalize_below d (hlast d) hhead (hdrop d)
        rwa [hdir, List.append_nil] at this
      · refine Or.inl ⟨dir.dropLast, hnames.of_subset (List.dropLast_subset _), fun d => ?_⟩
        rw [normalize_below d (hlast d) hhead (hdrop d), List.dropLast_append_of_ne_nil hdir]
    · have ht : IsName t := ⟨hnil, hdot, hup, hslash⟩
      have hconcat : Names (dir ++ [t]) := hnames.concat ht
      refine Or.inl ⟨dir ++ [t], hconcat, fun d =>
        normalize_below d (d.isNames.append hconcat) hhead ?_⟩
      rw [hsegments, pushSegment_name ht, List.reverse_cons, List.reverse_reverse, List.append_assoc]

/-- A way, and what comes before its first wildcard, start with a slash. -/
theorem Inner.exists_split_eq_cons (j : Inner) :
    ∃ rest front, j.text = '/' :: rest ∧ (Text.split '*' j.text).1 = '/' :: front := by
  obtain ⟨rest, hrest, -⟩ := j.exists_text_eq_cons
  refine ⟨rest, (Text.split '*' rest).1, hrest, ?_⟩
  rw [hrest]
  rfl

/-- What is left of a way with wildcards when it is cut to the directory that a search starts from. -/
def Inner.top (j : Inner) : List Char := cut (Text.split '*' j.text).1

/-- The directory that a search starts from is that of the package, or one that its way leads to. -/
theorem topDir?_at {d : Dir} (hd : d.IsPlain) (j : Inner) :
    Pattern.topDir? (d.at j)
      = if d.stem = [] ∧ j.top = [] then none else some (String.ofList (d.stem ++ j.top)) := by
  have hstar : '*' ∉ d.stem := fun hmem => hd.1 (d.stem_subset hmem)
  have hline : '\n' ∉ d.stem := fun hmem => hd.2 (d.stem_subset hmem)
  obtain ⟨_, _, -, hhead⟩ := j.exists_split_eq_cons
  rw [Pattern.topDir?, Pattern.ofText, Pattern.ofChars, Dir.toList_at, Text.split_append hstar,
    hhead, topDirChars?_append hline, Inner.top, hhead]
  split <;> rfl

theorem exists_eq_split_append (c : Char) (cs : List Char) :
    ∃ rest, cs = (Text.split c cs).1 ++ rest := by
  induction cs with
  | nil => exact ⟨[], rfl⟩
  | cons x cs ih =>
    obtain ⟨rest, hrest⟩ := ih
    rw [Text.split]
    by_cases hx : x = c
    · exact ⟨x :: cs, by rw [if_pos hx]; rfl⟩
    · refine ⟨rest, ?_⟩
      rw [if_neg hx, List.cons_append, ← hrest]

/-- The directory that a search starts from lies within the package directory, or is it, or is the
one above. -/
theorem normalize_top (j : Inner) (hne : j.top ≠ []) :
    (∃ dir, Names dir ∧ ∀ d : Dir,
        normalize (String.ofList (d.stem ++ j.top)) = ofNames d.slashes (d.names ++ dir))
      ∨ ∀ d : Dir, normalize (String.ofList (d.stem ++ j.top))
          = ofNames d.slashes d.names.dropLast := by
  obtain ⟨rest, _, hrest, hhead⟩ := j.exists_split_eq_cons
  obtain ⟨others, hothers⟩ := exists_eq_split_append '*' j.text
  obtain ⟨sep, behind, hcut⟩ := exists_eq_cut_append (Text.split '*' j.text).1
    ⟨'/', by rw [hhead, List.takeWhile_cons_of_pos (by decide)]; simp, by decide⟩
  -- what is cut off starts with the slash of the way
  obtain ⟨c, text, htext⟩ := List.exists_cons_of_ne_nil hne
  have hwhole : j.text = (c :: text) ++ sep :: (behind ++ others) := by
    rw [← htext, Inner.top, ← List.cons_append, ← List.append_assoc, ← hcut, ← hothers]
  obtain rfl : c = '/' := by
    rw [hrest, List.cons_append, List.cons.injEq] at hwhole
    exact hwhole.1.symm
  rw [htext]
  exact normalize_cut j hwhole

end Path

/-! ### Searches -/

/-- Two searches are for patterns that correspond, in the contexts of two passes. -/
structure SearchTwin (d d' : Dir) (ctx ctx' : Context) (search search' : Subpath.Search) : Prop where
  pattern : ∃ j : Inner, search.pattern = d.at j ∧ search'.pattern = d'.at j
    ∧ (search.skipped = [] ∨ j.top = [])
  published : search.published = ctx.published
  published' : search'.published = ctx'.published
  hides : ∀ capture, search.hides capture = search'.hides capture
  skipped : search.skipped = search'.skipped

/-- Paths that lead the same way within two directories. -/
def Path.InnerTwin (d d' : Dir) (p p' : String) : Prop := ∃ i : Inner, p = d.at i ∧ p' = d'.at i

namespace Relocated

variable {package : Package} {d d' : Dir} {tree tree' : MemoryTree} {ctx ctx' : Context}
  (h : Relocated package d d' tree tree' ctx ctx') {search search' : Subpath.Search}

include h

/-- A path within is found by both searches, or by none. -/
theorem finds_at (hs : SearchTwin d d' ctx ctx' search search') (i : Inner) :
    search.finds (d.at i) = search'.finds (d'.at i) := by
  obtain ⟨j, hj, hj', -⟩ := hs.pattern
  rw [Subpath.Search.finds, Subpath.Search.finds, hj, hj', captures?_at h.plain.1,
    captures?_at h.plain'.1, show search.hides = search'.hides from funext hs.hides]

theorem leadsToPublished_at (hs : SearchTwin d d' ctx ctx' search search') (i : Inner) :
    search.leadsToPublished (d.at i) = search'.leadsToPublished (d'.at i) := by
  obtain ⟨listed, hlisted, hlisted'⟩ := h.published
  rw [Subpath.Search.leadsToPublished, Subpath.Search.leadsToPublished, hs.published,
    hs.published', hlisted, hlisted']
  cases listed with
  | none => rfl
  | some texts => simp only [Option.map_some, List.any_map, Function.comp_def, Dir.hasStart_below_at]

omit h in
theorem forall₂_flatMap {α β γ : Type} {R : β → γ → Prop} {f : α → List β} {g : α → List γ}
    {items : List α} (hitems : ∀ a ∈ items, List.Forall₂ R (f a) (g a)) :
    List.Forall₂ R (items.flatMap f) (items.flatMap g) := by
  induction items with
  | nil => exact .nil
  | cons a rest ih =>
    obtain ⟨ha, hrest⟩ := List.forall_mem_cons.mp hitems
    rw [List.flatMap_cons, List.flatMap_cons]
    exact List.rel_append ha (ih hrest)

/-- Walks through directories that correspond come upon files that correspond, however they are
bounded. -/
theorem found_within (hs : SearchTwin d d' ctx ctx' search search') (bound bound' : Nat)
    {dir : List Segment} (hd : Names dir) (hb : package.height ≤ bound + dir.length)
    (hb' : package.height ≤ bound' + dir.length) {path path' : String}
    (hpath : normalize path = ofNames d.slashes (d.names ++ dir))
    (hpath' : normalize path' = ofNames d'.slashes (d'.names ++ dir)) :
    List.Forall₂ (InnerTwin d d') (tree.toFileTree.found search bound path)
      (tree'.toFileTree.found search' bound' path') := by
  induction bound generalizing bound' dir path path' with
  | zero =>
    have hnil : package.listing dir = [] := Package.listing_of_height_le (by omega)
    rw [← h.lies'.names_within hd hpath'] at hnil
    cases bound' with
    | zero => exact .nil
    | succ bound' => simp [FileTree.found, hnil]
  | succ bound ih =>
    cases bound' with
    | zero =>
      have hnil : package.listing dir = [] := Package.listing_of_height_le (by omega)
      rw [← h.lies.names_within hd hpath] at hnil
      simp [FileTree.found, hnil]
    | succ bound' =>
      rw [FileTree.found, FileTree.found, h.lies.names_within hd hpath,
        h.lies'.names_within hd hpath']
      refine forall₂_flatMap fun name hname => ?_
      obtain ⟨s, hs', rfl⟩ := Package.isName_of_mem_listing hname
      have hall : Names (dir ++ [s]) := hd.concat hs'
      have hjoin (e : Dir) {path : String}
          (hpath : normalize path = ofNames e.slashes (e.names ++ dir)) :
          join path (String.ofList s) = e.at ⟨dir ++ [s], false, hall, Or.inl (by simp)⟩ := by
        rw [join_name e.isRoot (e.isNames.append hd) hpath hs',
          Dir.at_eq_ofNames _ _ rfl, List.append_assoc]
      simp only [hjoin d hpath, hjoin d' hpath', h.leadsToPublished_at hs, h.isDir_at, hs.skipped,
        h.finds_at hs]
      split
      · split
        · split
          · exact .nil
          · exact ih bound' hall (by simp; omega) (by simp; omega) (d.normalize_at _)
              (d'.normalize_at _)
        · split
          · exact .cons ⟨_, rfl, rfl⟩ .nil
          · exact .nil
      · exact .nil

/-- From the directory above a package a walk comes upon the package directory only. -/
theorem found_above (hs : SearchTwin d d' ctx ctx' search search') (hskipped : search.skipped = [])
    (hroot : d.names ≠ []) {path path' : String}
    (hpath : normalize path = ofNames d.slashes d.names.dropLast)
    (hpath' : normalize path' = ofNames d'.slashes d'.names.dropLast) :
    List.Forall₂ (InnerTwin d d') (tree.toFileTree.found search ctx.depth path)
      (tree'.toFileTree.found search' ctx'.depth path') := by
  have hstep : ∀ {e : Dir} {t : MemoryTree} {c : Context} {s : Subpath.Search} {path : String},
      package.Lies e t → e.names ≠ [] → e.names.length + package.height ≤ c.depth →
      s.skipped = [] → normalize path = ofNames e.slashes e.names.dropLast →
      t.toFileTree.found s c.depth path
        = if s.leadsToPublished e.path then t.toFileTree.found s (c.depth - 1) e.path else [] := by
    intro e t c s path hlies hne hdepth hskip hpath
    obtain ⟨front, last, hnames, hfront, hlast⟩ := e.isNames.exists_concat hne
    obtain ⟨bound, hbound⟩ : ∃ bound, c.depth = bound + 1 := by
      rw [hnames] at hdepth
      exact ⟨c.depth - 1, by simp at hdepth; omega⟩
    rw [hnames, List.dropLast_concat] at hpath
    obtain ⟨-, hlisted⟩ := hlies.above h.files_ne_nil hnames hpath
    have hjoin : join path (String.ofList last) = e.path := by
      rw [join_name e.isRoot hfront hpath hlast, Dir.path, hnames]
    rw [hbound, FileTree.found, hlisted, List.flatMap_singleton]
    simp [hjoin, hlies.isDir_path h.files_ne_nil, hskip]
  have hroot' : d'.names ≠ [] := mt h.root_iff.mpr hroot
  have hpublished : search.leadsToPublished d.path = search'.leadsToPublished d'.path := by
    obtain ⟨listed, hlisted, hlisted'⟩ := h.published
    rw [Subpath.Search.leadsToPublished, Subpath.Search.leadsToPublished, hs.published,
      hs.published', hlisted, hlisted']
    cases listed with
    | none => rfl
    | some texts =>
      have hbelow (e : Dir) (text : String) : Text.hasStart (e.below text) e.path = true :=
        e.hasStart_below text (List.append_nil _).symm
      simp only [Option.map_some, List.any_map, Function.comp_def, hbelow]
  rw [hstep h.lies hroot h.height_le hskipped hpath,
    hstep h.lies' hroot' h.height_le' (hs.skipped ▸ hskipped) hpath', hpublished]
  split
  · have hle := List.length_pos_of_ne_nil hroot
    have hle' := List.length_pos_of_ne_nil hroot'
    have hdepth := h.height_le
    have hdepth' := h.height_le'
    exact h.found_within hs _ _ names_nil (by simp; omega) (by simp; omega)
      (Package.normalize_path d) (Package.normalize_path d')
  · exact .nil

/-- From directories that correspond walks come upon files that correspond. -/
theorem searched_within (hs : SearchTwin d d' ctx ctx' search search') {dir : List Segment}
    (hd : Names dir) {path path' : String}
    (hpath : normalize path = ofNames d.slashes (d.names ++ dir))
    (hpath' : normalize path' = ofNames d'.slashes (d'.names ++ dir)) :
    List.Forall₂ (InnerTwin d d')
      (if tree.toFileTree.isDir path then tree.toFileTree.found search ctx.depth path else [])
      (if tree'.toFileTree.isDir path' then tree'.toFileTree.found search' ctx'.depth path'
        else []) := by
  have hdepth := h.height_le
  have hdepth' := h.height_le'
  rw [h.lies.isDir_within h.files_ne_nil hd hpath, h.lies'.isDir_within h.files_ne_nil hd hpath']
  split
  · exact h.found_within hs _ _ hd (by omega) (by omega) hpath hpath'
  · exact .nil

omit h in
/-- At the root a pattern with a wildcard in its first name finds nothing. -/
theorem expanded_root (hlies : package.Lies d tree) (hplain : d.IsPlain) (hroot : d.names = [])
    {j : Inner} (hj : search.pattern = d.at j) (htop : j.top = []) (depth : Nat) :
    tree.toFileTree.expanded depth search = [] := by
  rw [FileTree.expanded, hj, topDir?_at hplain, htop, Dir.stem, hroot, if_pos rfl]
  rcases d.isRoot with hk | hk
  · simp [hk]
  · have hslash : normalize "/" = ofNames 1 [] := by decide
    have hnames : tree.toFileTree.names "/" = [] := by
      rw [Package.names_eq_getD, hslash, hlies.getD_get?_dirs (Or.inl rfl) names_nil,
        if_neg (by omega)]
    have hfound : tree.toFileTree.found search depth "/" = [] := by
      cases depth with
      | zero => rfl
      | succ bound => rw [FileTree.found, hnames, List.flatMap_nil]
    simp [hk, hfound]

/-- Searches that correspond find files that correspond. -/
theorem expanded (hs : SearchTwin d d' ctx ctx' search search') :
    List.Forall₂ (InnerTwin d d') (tree.toFileTree.expanded ctx.depth search)
      (tree'.toFileTree.expanded ctx'.depth search') := by
  obtain ⟨j, hj, hj', hsafe⟩ := hs.pattern
  by_cases htop : j.top = []
  · by_cases hroot : d.names = []
    · rw [expanded_root h.lies h.plain hroot hj htop,
        expanded_root h.lies' h.plain' (h.root_iff.mp hroot) hj' htop]
      exact .nil
    · have hstem (e : Dir) (hne : e.names ≠ []) : e.stem ≠ [] ∧ String.ofList e.stem = e.path := by
        rw [Dir.stem, if_neg hne]
        exact ⟨ofSegments_ne_nil e.isRoot _, rfl⟩
      have hroot' := mt h.root_iff.mpr hroot
      rw [FileTree.expanded, FileTree.expanded, hj, hj', topDir?_at h.plain, topDir?_at h.plain',
        htop, if_neg fun hnil => (hstem d hroot).1 hnil.1,
        if_neg fun hnil => (hstem d' hroot').1 hnil.1, List.append_nil, List.append_nil,
        (hstem d hroot).2, (hstem d' hroot').2]
      exact h.searched_within hs names_nil (Package.normalize_path d) (Package.normalize_path d')
  · rw [FileTree.expanded, FileTree.expanded, hj, hj', topDir?_at h.plain, topDir?_at h.plain',
      if_neg fun hnil => htop hnil.2, if_neg fun hnil => htop hnil.2]
    rcases normalize_top j htop with ⟨dir, hd, hpath⟩ | hpath
    · exact h.searched_within hs hd (hpath d) (hpath d')
    · by_cases hroot : d.names = []
      · have hup (e : Dir) (he : e.names = []) : normalize (String.ofList (e.stem ++ j.top))
            = ofNames e.slashes (e.names ++ []) := by
          rw [hpath, he]
          rfl
        exact h.searched_within hs names_nil (hup d hroot) (hup d' (h.root_iff.mp hroot))
      · have hdir : ∀ {e : Dir} {t : MemoryTree}, package.Lies e t → e.names ≠ [] →
            t.toFileTree.isDir (String.ofList (e.stem ++ j.top)) = true := by
          intro e t hlies hne
          obtain ⟨front, last, hnames, -, -⟩ := e.isNames.exists_concat hne
          have hup := hpath e
          rw [hnames, List.dropLast_concat] at hup
          exact (hlies.above h.files_ne_nil hnames hup).1
        simp only [hdir h.lies hroot, hdir h.lies' (mt h.root_iff.mpr hroot), if_true]
        exact h.found_above hs (hsafe.resolve_right htop) hroot (hpath d) (hpath d')

end Relocated

end PackageLint
