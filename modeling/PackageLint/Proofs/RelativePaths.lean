import PackageLint.Proofs.InnerReadings

/-!
# The way between two paths leads back

The way from one path to another goes up to what they share, then down. Put below the first path, it
leads to the second: a `..` takes back one name, so the steps up leave what is shared, and the names
behind them are what is left of the second path. Both paths have to start at one root, since the way
does not tell roots apart.

## Main results

* `Path.foldl_way` — the segments of the way, pushed onto one path, give the other
* `Path.join_relative` — a path is what the way to it leads to
* `Path.exists_stem` — a path ends with its extension
* `FileFormat.sibling_eq` — the path with another extension
-/

namespace PackageLint

namespace Path

/-! ### Going up and down -/

/-- Below a root, every `..` takes back one name. -/
theorem foldl_ups_names {stack : List Segment} (h : Names stack) (n : Nat) :
    (List.replicate n up).foldl (pushSegment true) stack = stack.drop n := by
  induction n generalizing stack with
  | zero => rfl
  | succ n ih =>
    rw [List.replicate_succ, List.foldl_cons]
    cases stack with
    | nil =>
      have hpush : pushSegment true [] up = [] := rfl
      rw [hpush, ih names_nil, List.drop_nil, List.drop_nil]
    | cons s rest =>
      obtain ⟨hs, hrest⟩ := names_cons.mp h
      have hpush : pushSegment true (s :: rest) up = rest := by
        rw [pushSegment.eq_def, if_neg (by decide), if_pos rfl]
        exact if_neg hs.ne_up
      rw [hpush, ih hrest, List.drop_succ_cons]

/-- Two lists share a start, behind which each goes its own way. -/
theorem exists_dropShared (a b : List Segment) :
    ∃ shared, a = shared ++ (dropShared a b).1 ∧ b = shared ++ (dropShared a b).2 := by
  induction a generalizing b with
  | nil => exact ⟨[], by simp [dropShared]⟩
  | cons s a ih =>
    cases b with
    | nil => exact ⟨[], by simp [dropShared]⟩
    | cons t b =>
      rw [dropShared]
      split
      next heq =>
        obtain ⟨shared, ha, hb⟩ := ih b
        exact ⟨s :: shared, by rw [List.cons_append, ← ha], by rw [List.cons_append, ← hb, heq]⟩
      next => exact ⟨[], rfl, rfl⟩

/-- The segments of the way between two lists of names. -/
def way (a b : List Segment) : List Segment :=
  (dropShared a b).1.map (fun _ => up) ++ (dropShared a b).2

/-- The segments of the way, pushed onto one list of names, give the other. -/
theorem foldl_way {a b : List Segment} (ha : Names a) (hb : Names b) :
    (way a b).foldl (pushSegment true) a.reverse = b.reverse := by
  obtain ⟨shared, hshared, hshared'⟩ := exists_dropShared a b
  have hdown : Names (dropShared a b).2 := by
    rw [hshared'] at hb
    exact (names_append.mp hb).2
  have hreverse : Names a.reverse := ha.of_subset (List.reverse_subset.mpr (List.Subset.refl _))
  have hup : a.reverse = (dropShared a b).1.reverse ++ shared.reverse :=
    (congrArg List.reverse hshared).trans List.reverse_append
  have hdrop : a.reverse.drop (dropShared a b).1.length = shared.reverse := by
    rw [hup, ← List.length_reverse, List.drop_left]
  rw [way, List.foldl_append, List.map_const', foldl_ups_names hreverse, hdrop,
    foldl_names true hdown, ← List.reverse_append, ← hshared']

/-- The way is made of steps up, and of names of the second list. -/
theorem eq_up_or_mem_of_mem_way {a b : List Segment} {s : Segment} (hs : s ∈ way a b) :
    s = up ∨ s ∈ b := by
  obtain ⟨shared, -, hshared⟩ := exists_dropShared a b
  rcases List.mem_append.mp hs with hs | hs
  · obtain ⟨-, -, rfl⟩ := List.mem_map.mp hs
    exact Or.inl rfl
  · exact Or.inr (hshared ▸ List.mem_append_right _ hs)

theorem no_slash_of_mem_way {a b : List Segment} (hb : Names b) : ∀ s ∈ way a b, '/' ∉ s := by
  intro s hs
  rcases eq_up_or_mem_of_mem_way hs with rfl | hs
  · decide
  · exact (hb s hs).no_slash

theorem ne_nil_of_mem_way {a b : List Segment} (hb : Names b) : ∀ s ∈ way a b, s ≠ [] := by
  intro s hs
  rcases eq_up_or_mem_of_mem_way hs with rfl | hs
  · decide
  · exact (hb s hs).ne_nil

/-! ### The way between two paths -/

variable {k : Nat} {names : List Segment} {base path : String}

theorem absoluteSegments_of_normalize (workDir : String) (h : isRooted path = true)
    (hnames : Names names) (hnormal : normalize path = ofNames k names) :
    absoluteSegments workDir path = names := by
  rw [absoluteSegments, absolute, if_pos h, hnormal, toList_ofNames, filter_pieces_ofSegments hnames]

theorem rootSlashes_of_normalize (hk : IsRoot k) (hnames : Names names)
    (hnormal : normalize path = ofNames k names) : rootSlashes path.toList = k := by
  have hchars : normalizeChars path.toList = ofSegments k names := by
    simpa [normalize] using congrArg String.toList hnormal
  rw [← rootSlashes_normalizeChars, hchars, rootSlashes_ofNames hk.le hnames]

theorem normalSegments_of_normalize (hk : IsRoot k) (hnames : Names names)
    (hnormal : normalize path = ofNames k names) : normalSegments path.toList = names := by
  have hchars : normalizeChars path.toList = ofSegments k names := by
    simpa [normalize] using congrArg String.toList hnormal
  rw [← normalSegments_normalizeChars, hchars, normalSegments_ofNames hk.le hnames]

/-- The text of a way, as a value that starts with `./`. -/
def wayText (segments : List Segment) : List Char :=
  '.' :: '/' :: (if segments = [] then ['.'] else ['/'].intercalate segments)

theorem pieces_wayText {segments : List Segment} (h : ∀ s ∈ segments, '/' ∉ s) :
    Text.pieces '/' (wayText segments)
      = ['.'] :: (if segments = [] then [['.']] else segments) := by
  have hsplit := Text.pieces_append_sep '/' ['.']
    (if segments = [] then ['.'] else ['/'].intercalate segments)
  rw [List.singleton_append] at hsplit
  rw [wayText, hsplit, Text.pieces_of_not_mem (by decide)]
  split
  · rw [Text.pieces_of_not_mem (by decide)]
    rfl
  next hne =>
    rw [Text.pieces_intercalate h hne]
    rfl

theorem getLast?_wayText {segments : List Segment} (h : ∀ s ∈ segments, '/' ∉ s)
    (hne : ∀ s ∈ segments, s ≠ []) : (wayText segments).getLast? ≠ some '/' := by
  rcases List.eq_nil_or_concat' segments with rfl | ⟨front, s, rfl⟩
  · decide
  · have hs : s ≠ [] := hne s (by simp)
    obtain ⟨before, hbefore⟩ := suffix_ofSegments 0 front s
    have htext : ['/'].intercalate (front ++ [s]) = before ++ s := by
      simpa [ofSegments] using hbefore.symm
    rw [wayText, if_neg (by simp), htext, ← List.cons_append, ← List.cons_append,
      List.getLast?_append_of_ne_nil _ hs]
    intro hlast
    obtain ⟨start, rfl⟩ := List.getLast?_eq_some_iff.mp hlast
    exact h (start ++ ['/']) (List.mem_append_right _ (List.mem_singleton_self _)) (by simp)

section

variable {start : List Segment} (workDir : String) (hk : IsRoot k) (hstart : Names start)
  (hnames : Names names) (hbase : normalize base = ofNames k start)

include hk hstart hnames hbase

/-- The text of the way from a path to another. -/
theorem toList_relative :
    ("./" ++ (relative? workDir base (ofNames k names)).getD ".").toList
      = wayText (way start names) := by
  have hrooted := isRooted_ofNames hk hnames
  have hne : ofNames k names ≠ "" := by
    intro h
    rw [h] at hrooted
    exact absurd hrooted (by decide)
  have hbaseRooted : isRooted base = true := by
    rw [← isRooted_normalize, hbase]
    exact isRooted_ofNames hk hstart
  have hrelative : relative? workDir base (ofNames k names)
      = if way start names = [] then some "."
        else some (String.ofList (['/'].intercalate (way start names))) := by
    rw [relative?, if_neg hne, absoluteSegments_of_normalize workDir hbaseRooted hstart hbase,
      absoluteSegments_of_normalize workDir hrooted hnames (normalize_ofNames hk hnames)]
    have hway : (dropShared start names).1.map (fun _ => ['.', '.']) ++ (dropShared start names).2
        = way start names := rfl
    simp only [hway]
    cases way start names <;> rfl
  rw [String.toList_append, hrelative, wayText]
  split <;> simp

/-- The way to a path names no directory. -/
theorem hasEnd_relative :
    Text.hasEnd ("./" ++ (relative? workDir base (ofNames k names)).getD ".") "/" = false := by
  refine Bool.eq_false_iff.mpr fun hend => ?_
  rw [Text.hasEnd, List.isSuffixOf_iff_suffix, toList_relative workDir hk hstart hnames hbase] at hend
  obtain ⟨front, hfront⟩ := hend
  exact getLast?_wayText (no_slash_of_mem_way (a := start) hnames) (ne_nil_of_mem_way hnames)
    (List.getLast?_eq_some_iff.mpr ⟨front, hfront.symm⟩)

/-- A path is what the way to it leads to. -/
theorem join_relative :
    join base ("./" ++ (relative? workDir base (ofNames k names)).getD ".") = ofNames k names := by
  have hslash := no_slash_of_mem_way (a := start) hnames
  have hstrip : Text.stripLeading '/' (wayText (way start names)) = wayText (way start names) := rfl
  have hhead : (wayText (way start names)).head? ≠ some '/' := by simp [wayText]
  -- the piece in front of the way, and the one of an empty way, lead nowhere
  have hpushed : (Text.pieces '/' (wayText (way start names))).foldl (pushSegment true) start.reverse
      = names.reverse := by
    rw [pieces_wayText hslash, ← foldl_way hstart hnames]
    split
    next hnone => rw [hnone]; rfl
    next => rfl
  refine String.toList_inj.mp ?_
  rw [toList_join, joinChars_eq, toList_relative workDir hk hstart hnames hbase,
    if_neg (getLast?_wayText hslash (ne_nil_of_mem_way hnames)), hstrip, toList_ofNames,
    ← normalizeChars_ofNames hk hnames]
  refine normalizeChars_congr ?_ ?_
  · rw [rootSlashes_appendPart _ hhead, rootSlashes_of_normalize hk hstart hbase,
      rootSlashes_ofNames hk.le hnames]
  · have hrootTrue : (k != 0) = true := by simp [hk.ne_zero]
    rw [normalSegments_appendPart _ hhead, rootSlashes_of_normalize hk hstart hbase,
      normalSegments_of_normalize hk hstart hbase, hrootTrue, hpushed, List.reverse_reverse,
      normalSegments_ofNames hk.le hnames]

end

/-! ### Extensions -/

theorem splitLast_fst_append (cs : List Char) : (splitLast cs).1 ++ (splitLast cs).2 = cs := by
  induction cs with
  | nil => rfl
  | cons c rest ih =>
    simp only [splitLast]
    split
    next hwhole =>
      simp only [Bool.and_eq_true, decide_eq_true_eq] at hwhole
      rw [hwhole.1, List.nil_append] at ih
      rw [ih, List.nil_append]
    next => rw [List.cons_append, ih]

/-- A path ends with its extension. -/
theorem exists_stem (path : String) : ∃ stem, stem ++ extension path = path := by
  have hname : (splitLast path.toList).2 <:+ path.toList := ⟨_, splitLast_fst_append path.toList⟩
  have hsuffix : extensionOf ((splitLast path.toList).2.dropWhile (· = '.')) <:+ path.toList :=
    (extensionOf_suffix _).trans ((List.dropWhile_suffix _).trans hname)
  obtain ⟨stem, hstem⟩ := hsuffix
  refine ⟨String.ofList stem, String.toList_inj.mp ?_⟩
  rw [String.toList_append, extension, String.toList_ofList, String.toList_ofList, hstem]

end Path

/-- The sibling of a path has the extension of a format in place of its own. -/
theorem FileFormat.sibling_eq {stem path : String} (h : stem ++ Path.extension path = path)
    (format : Format) : sibling path format = stem ++ format.codeExtension := by
  have hsame := Text.replaceLast_append stem (Path.extension path) format.codeExtension
  rwa [h] at hsame

end PackageLint
