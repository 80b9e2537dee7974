import PackageLint.Check.FileFormat
import PackageLint.Path.Kind
import PackageLint.Proofs.InnerPaths
import PackageLint.Proofs.TextParts

/-!
# What is read off a path within a directory

A path within a directory has a last slash, which belongs to the way within and not to the directory.
What comes after it is the same below every directory, and this is all that an ending, an extension or
a sibling looks at. What comes before it decides the parent. A word without a slash occurs in the path
of the directory or in the way, never across the slash between them.

## Main definitions

* `Path.Inner.above`, `Path.Inner.last` — the names before the last slash, and the text after it
* `Path.Dir.below` — a text put below a directory

## Main results

* `Path.Dir.hasEnd_at`, `Path.Dir.extension_at` — endings are those of the text after the last slash
* `Path.Dir.ancestors_dropEnd_at` — the directories above
* `Path.Dir.relative_at` — the way from the directory
* `Path.exists_sibling_at`, `Path.exists_at_append` — paths within made from paths within
-/

namespace PackageLint

namespace Path

/-! ### The last slash -/

namespace Inner

variable (i : Inner)

/-- The names that a way goes through before its last slash. -/
def above : List Segment := if i.slash then i.names else i.names.dropLast

/-- The text after the last slash of a way. -/
def last : Segment := if i.slash then [] else i.names.getLast?.getD []

/-- The text before the last slash of a way. -/
def front : List Char := if i.above = [] then [] else ofSegments 1 i.above

theorem ofSegments_one_concat (names : List Segment) (s : Segment) :
    ofSegments 1 (names ++ [s]) = (if names = [] then [] else ofSegments 1 names) ++ '/' :: s := by
  split
  next h => simp [h, ofSegments_one, List.intercalate]
  next h => exact ofSegments_concat h 1 s

/-- A way that does not end with a slash goes through the names above and a last one. -/
theorem names_eq (h : i.slash = false) : i.names = i.above ++ [i.last] ∧ IsName i.last := by
  have hne : i.names ≠ [] := i.leads.resolve_right (by simp [h])
  obtain ⟨front, s, hfront, -, hs⟩ := i.isNames.exists_concat hne
  rw [above, last, h, hfront]
  simpa using hs

theorem text_eq_front : i.text = i.front ++ '/' :: i.last := by
  cases h : i.slash with
  | true =>
    have habove : i.above = i.names := by rw [above, if_pos h]
    have hlast : i.last = [] := by rw [last, if_pos h]
    rw [front, habove, hlast]
    split
    next hroot => rw [text_root i hroot, List.nil_append]
    next hnames => rw [text_eq i hnames, if_pos h]
  | false =>
    obtain ⟨hnames, -⟩ := i.names_eq h
    rw [text, h, if_neg (by simp), hnames, ofSegments_one_concat, front]

theorem no_slash_last : '/' ∉ i.last := by
  cases h : i.slash with
  | true => simp [last, h]
  | false => exact (i.names_eq h).2.no_slash

theorem names_above : Names i.above := by
  rw [above]
  split
  · exact i.isNames
  · exact fun s hs => i.isNames s (List.dropLast_subset _ hs)

end Inner

namespace Dir

variable (d : Dir) (i : Inner)

theorem toList_at_front : (d.at i).toList = (d.stem ++ i.front) ++ '/' :: i.last := by
  rw [toList_at, i.text_eq_front, List.append_assoc]

/-- What stands before the last slash of a path within is the way to the names above it. -/
theorem ofSegments_above (s : Segment) :
    ofSegments d.slashes (d.names ++ i.above ++ [s]) = (d.stem ++ i.front) ++ '/' :: s := by
  rw [List.append_assoc, ← stem_append d (by simp), Inner.ofSegments_one_concat, List.append_assoc,
    Inner.front]

theorem names_with_above : Names (d.names ++ i.above) := d.isNames.append i.names_above

theorem head?_stem : d.stem = [] ∨ d.stem.head? = some '/' := by
  rw [stem]
  rcases d.isRoot with hk | hk <;> rw [hk] <;> split <;> simp [ofSegments, List.replicate]

theorem head?_at : (d.at i).toList.head? = some '/' := by
  rw [toList_at]
  rcases d.head?_stem with h | h
  · rw [h, List.nil_append, i.head?_text]
  · rw [List.head?_append, h, Option.some_or]

/-! ### Endings -/

/-- The endings of a path within are those of the text after its last slash. -/
theorem hasEnd_at {ending : String} (h : '/' ∉ ending.toList) :
    Text.hasEnd (d.at i) ending = ending.toList.isSuffixOf i.last := by
  rw [Text.hasEnd, Bool.eq_iff_iff, List.isSuffixOf_iff_suffix, List.isSuffixOf_iff_suffix,
    toList_at_front, Text.suffix_append_sep h]

theorem extension_at :
    extension (d.at i) = String.ofList (extensionOf (i.last.dropWhile (· = '.'))) := by
  rw [extension, toList_at_front, splitLast_append i.no_slash_last]

/-- What is left of a path within when it loses an ending. -/
theorem exists_dropEnd_at (i : Inner) {ending : String} (h : '/' ∉ ending.toList) :
    ∃ rest, '/' ∉ rest ∧ ∀ d : Dir,
      (Text.dropEnd (d.at i) ending).toList = (d.stem ++ i.front) ++ '/' :: rest := by
  cases hend : ending.toList.isSuffixOf i.last with
  | true =>
    obtain ⟨rest, hrest⟩ := List.isSuffixOf_iff_suffix.mp hend
    have hslash : '/' ∉ rest := fun hmem => i.no_slash_last (hrest ▸ List.mem_append_left _ hmem)
    refine ⟨rest, hslash, fun d => ?_⟩
    have hpath : d.at i = String.ofList ((d.stem ++ i.front) ++ '/' :: rest) ++ ending := by
      rw [← String.toList_inj, toList_at_front, ← hrest]
      simp
    rw [hpath, Text.dropEnd_append, String.toList_ofList]
  | false =>
    refine ⟨i.last, i.no_slash_last, fun d => ?_⟩
    rw [Text.dropEnd_of_not_hasEnd ((hasEnd_at d i h).trans hend), toList_at_front]

/-! ### The directories above -/

theorem parentChars_last (front : List Char) {s t : List Char} (hs : '/' ∉ s) (ht : '/' ∉ t) :
    parentChars (front ++ '/' :: s) = parentChars (front ++ '/' :: t) := by
  rw [parentChars, parentChars, splitLast_append hs, splitLast_append ht]

/-- The parent of a path within depends on the names above only. -/
theorem parentChars_front {rest : List Char} (h : '/' ∉ rest) :
    parentChars ((d.stem ++ i.front) ++ '/' :: rest)
      = ofSegments d.slashes (d.names ++ i.above) := by
  have hx : IsName ['x'] := by decide
  have hparent := parent_ofNames d.isRoot (d.names_with_above i) hx
  rw [parentChars_last _ h hx.no_slash, ← ofSegments_above]
  simpa [parent] using congrArg String.toList hparent

/-- The directories above a path within, also when it has lost an ending. -/
theorem ancestors_dropEnd_at {ending : String} (h : '/' ∉ ending.toList) :
    ancestors (Text.dropEnd (d.at i) ending)
      = (d.names ++ i.above).inits.reverse.map (ofNames d.slashes) := by
  obtain ⟨rest, hslash, hpath⟩ := exists_dropEnd_at i h
  have hpath := hpath d
  have hparent : parent (Text.dropEnd (d.at i) ending) = ofNames d.slashes (d.names ++ i.above) := by
    rw [parent, hpath, parentChars_front d i hslash]
    rfl
  have hx : IsName ['x'] := by decide
  have hlength := length_le_ofSegments d.slashes
    ((d.names_with_above i).concat hx)
  rw [ofSegments_above] at hlength
  rw [ancestors, hparent]
  refine ancestorsFrom_ofNames d.isRoot (d.names_with_above i) ?_
  rw [← String.length_toList, hpath]
  simp only [List.length_append, List.length_cons, List.length_nil] at hlength ⊢
  omega

theorem ancestors_at :
    ancestors (d.at i) = (d.names ++ i.above).inits.reverse.map (ofNames d.slashes) := by
  rw [← Text.dropEnd_empty (d.at i), ancestors_dropEnd_at d i (by decide)]

/-! ### Words in a path -/

theorem occursIn_stem {word : List Char} (h : '/' ∉ word) (hne : word ≠ []) :
    Text.occursIn word d.stem = Text.occursIn word d.path.toList := by
  rw [path, toList_ofNames, stem]
  split
  next hroot =>
    cases word with
    | nil => exact absurd rfl hne
    | cons c word =>
      have hc : c ≠ '/' := fun hc => h (hc ▸ List.mem_cons_self)
      rw [hroot]
      rcases d.isRoot with hk | hk <;> rw [hk] <;>
        simp [ofSegments, List.intercalate, List.replicate, Text.occursIn, List.isPrefixOf, hc]
  next => rfl

/-- A word occurs in a path within where it occurs in the path of the directory or in the way. -/
theorem hasPart_at {word : String} (h : '/' ∉ word.toList) (hne : word.toList ≠ []) :
    Text.hasPart (d.at i) word
      = (Text.hasPart d.path word || Text.occursIn word.toList i.text) := by
  obtain ⟨rest, hrest⟩ : ∃ rest, i.text = '/' :: rest := List.head?_eq_some_iff.mp i.head?_text
  have hslash : Text.occursIn word.toList i.text = Text.occursIn word.toList rest := by
    have := Text.occursIn_append_sep h hne [] rest
    rw [List.nil_append] at this
    rw [hrest, this]
    cases hword : word.toList with
    | nil => exact absurd hword hne
    | cons c word => rfl
  rw [Text.hasPart, Text.hasPart, toList_at, hslash, hrest, Text.occursIn_append_sep h hne,
    occursIn_stem d h hne]

/-! ### The way from the directory -/

theorem isRooted_at : isRooted (d.at i) = true := by
  rw [isRooted, Text.hasStart]
  obtain ⟨rest, hrest⟩ := List.head?_eq_some_iff.mp (d.head?_at i)
  simp [hrest]

theorem looksAbsolute_at : looksAbsolute (d.at i) = true := by
  obtain ⟨rest, hrest⟩ := List.head?_eq_some_iff.mp (d.head?_at i)
  simp [looksAbsolute, hrest]

end Dir

theorem filter_pieces_ofSegments {k : Nat} {names : List Segment} (h : Names names) :
    (Text.pieces '/' (ofSegments k names)).filter (· ≠ []) = names := by
  have hnames : names.filter (· ≠ []) = names :=
    List.filter_eq_self.mpr fun s hs => by simpa using (h s hs).ne_nil
  induction k with
  | zero =>
    by_cases hnil : names = []
    · subst hnil
      decide
    · rw [ofSegments, List.replicate_zero, List.nil_append,
        Text.pieces_intercalate (fun s hs => (h s hs).no_slash) hnil, hnames]
  | succ k ih =>
    rw [ofSegments, List.replicate_succ, List.cons_append, Text.pieces_cons_self,
      List.filter_cons_of_neg (by simp)]
    exact ih

theorem dropShared_append (start rest : List Segment) :
    dropShared start (start ++ rest) = ([], rest) := by
  induction start with
  | nil => cases rest <;> rfl
  | cons s start ih => simp [dropShared, ih]

namespace Dir

variable (d : Dir) (i : Inner) (workDir : String)

theorem absoluteSegments_path : absoluteSegments workDir d.path = d.names := by
  rw [absoluteSegments, absolute, path, if_pos (isRooted_ofNames d.isRoot d.isNames),
    normalize_ofNames d.isRoot d.isNames, toList_ofNames, filter_pieces_ofSegments d.isNames]

theorem absoluteSegments_at : absoluteSegments workDir (d.at i) = d.names ++ i.names := by
  rw [absoluteSegments, absolute, if_pos (d.isRooted_at i), normalize_at, toList_ofNames,
    filter_pieces_ofSegments (d.names_within i)]

/-- The way from a directory to a path within it goes through the names within. -/
theorem relative_at :
    relative? workDir d.path (d.at i)
      = match i.names with
        | [] => some "."
        | segments => some (String.ofList (['/'].intercalate segments)) := by
  have hne : d.at i ≠ "" := by
    intro h
    have := d.head?_at i
    simp [h] at this
  rw [relative?, if_neg hne, absoluteSegments_path, absoluteSegments_at, dropShared_append]
  cases i.names <;> rfl

end Dir

/-! ### Paths within made from paths within -/

namespace Inner

variable (i : Inner)

/-- The way with another text after its last slash. -/
def withLast (s : Segment) (hs : IsName s) : Inner where
  names := i.above ++ [s]
  slash := false
  isNames := names_append.mpr ⟨i.names_above, names_singleton.mpr hs⟩
  leads := Or.inl (by simp)

/-- The way through one more name. -/
def child (s : Segment) (hs : IsName s) : Inner where
  names := i.names ++ [s]
  slash := false
  isNames := names_append.mpr ⟨i.isNames, names_singleton.mpr hs⟩
  leads := Or.inl (by simp)

end Inner

namespace Dir

variable (d : Dir) (i : Inner) {s : Segment} (hs : IsName s)

theorem toList_at_withLast :
    (d.at (i.withLast s hs)).toList = (d.stem ++ i.front) ++ '/' :: s := by
  rw [at_eq_ofNames d _ rfl, toList_ofNames, Inner.withLast, ← List.append_assoc, ofSegments_above]

theorem join_at : join (d.at i) (String.ofList s) = d.at (i.child s hs) := by
  rw [at_eq_ofNames d (i.child s hs) rfl,
    join_name d.isRoot (d.names_within i) (d.normalize_at i) hs, Inner.child, List.append_assoc]

/-- A name put below a directory is a path within it. -/
theorem join_path : join d.path (String.ofList s)
    = d.at ⟨[s], false, names_singleton.mpr hs, Or.inl (by simp)⟩ := by
  rw [at_eq_ofNames d _ rfl, path, join_ofNames d.isRoot d.isNames hs]

end Dir

/-- Text put behind a path within makes a path within. -/
theorem exists_at_append (i : Inner) {ending : String} (h : IsName ending.toList) :
    ∃ j : Inner, ∀ d : Dir, d.at i ++ ending = d.at j := by
  refine ⟨i.withLast (i.last ++ ending.toList) (h.append i.no_slash_last), fun d => ?_⟩
  refine String.toList_inj.mp ?_
  rw [String.toList_append, d.toList_at_front, d.toList_at_withLast, List.append_assoc,
    List.cons_append]

theorem extensionOf_suffix (cs : List Char) : extensionOf cs <:+ cs := by
  induction cs with
  | nil => exact List.suffix_rfl
  | cons c rest ih =>
    rw [extensionOf.eq_def]
    split
    next => simp
    next c' rest' heq =>
      obtain ⟨rfl, rfl⟩ := List.cons.inj heq
      split
      · split
        · exact List.suffix_rfl
        · exact List.nil_suffix
      · exact ih.trans (List.suffix_cons _ _)

theorem isName_codeExtension (format : Format) : IsName format.codeExtension.toList := by
  cases format <;> exact by decide

/-- The sibling of a file within is a file within. -/
theorem exists_sibling_at (i : Inner) (format : Format) :
    ∃ j : Inner, ∀ d : Dir, FileFormat.sibling (d.at i) format = d.at j := by
  have hsuffix : extensionOf (i.last.dropWhile (· = '.')) <:+ i.last :=
    (extensionOf_suffix _).trans (List.dropWhile_suffix _)
  obtain ⟨rest, hrest⟩ := hsuffix
  have hslash : '/' ∉ rest := fun hmem => i.no_slash_last (hrest ▸ List.mem_append_left _ hmem)
  refine ⟨i.withLast (rest ++ format.codeExtension.toList)
    ((isName_codeExtension format).append hslash), fun d => ?_⟩
  refine String.toList_inj.mp ?_
  have hpath : (d.at i).toList
      = (d.stem ++ i.front ++ '/' :: rest) ++ extensionOf (i.last.dropWhile (· = '.')) := by
    rw [d.toList_at_front, List.append_assoc (d.stem ++ i.front), List.cons_append, hrest]
  rw [FileFormat.sibling, Text.replaceLast, d.extension_at, String.toList_ofList, hpath,
    Text.replaceLast?_append, Option.map_some, Option.getD_some, String.toList_ofList,
    d.toList_at_withLast, List.append_assoc (d.stem ++ i.front), List.cons_append]

/-! ### Entries completed by legacy resolution -/

theorem join_slash (base : String) {s : Segment} (hs : IsName s) :
    join base (String.ofList ('/' :: s)) = join base (String.ofList s) := by
  refine String.toList_inj.mp ?_
  have hlast : ('/' :: s).getLast? = s.getLast? := by
    rw [← List.singleton_append, List.getLast?_append_of_ne_nil _ hs.ne_nil]
  rw [toList_join, toList_join, joinChars_eq, joinChars_eq, String.toList_ofList,
    String.toList_ofList, hlast]
  simp [Text.stripLeading]

theorem isName_script : IsName ".js".toList := by decide

theorem isName_index : IsName "index.js".toList := by decide

theorem Inner.text_child (i : Inner) {s : Segment} (hs : IsName s) :
    (i.child s hs).text = i.text ++ if i.slash then s else '/' :: s := by
  have hchild : (i.child s hs).text = ofSegments 1 (i.names ++ [s]) := by
    rw [text, child, if_neg (by simp)]
  rw [hchild, ofSegments_one_concat]
  split
  next hroot =>
    rw [i.text_root hroot, if_pos (i.leads.resolve_left (by simp [hroot]))]
    rfl
  next hnames =>
    rw [i.text_eq hnames]
    cases i.slash <;> simp

theorem Dir.hasEnd_at_slash (d : Dir) (i : Inner) : Text.hasEnd (d.at i) "/" = i.slash := by
  rw [Bool.eq_iff_iff, ← d.getLast?_at, Text.hasEnd, List.isSuffixOf_iff_suffix,
    List.getLast?_eq_some_iff]
  exact exists_congr fun front => eq_comm

/-- The index of a path within is put behind its slash, or behind one of its own. -/
theorem Dir.extend_index (d : Dir) (i : Inner) :
    Context.extend (d.at i) "/index.js" = d.at (i.child _ isName_index) := by
  refine String.toList_inj.mp ?_
  rw [toList_at, i.text_child, Context.extend, d.hasEnd_at_slash]
  cases i.slash <;> simp [Text.hasStart]

/-! ### Texts put below a directory -/

theorem ofSegments_append_front (k : Nat) (front rest : List Segment) :
    ofSegments k front <+: ofSegments k (front ++ rest) := by
  induction rest using List.reverseRecOn with
  | nil => rw [List.append_nil]
  | append_singleton rest s ih =>
    refine ih.trans ?_
    rw [← List.append_assoc]
    by_cases hnil : front ++ rest = []
    · rw [hnil]
      simp [ofSegments, List.intercalate]
    · rw [ofSegments_concat hnil]
      exact List.prefix_append _ _

namespace Dir

variable (d : Dir) (i : Inner) (text : String)

/-- A text put below a directory. -/
def below : String := String.ofList (d.stem ++ '/' :: text.toList)

theorem below_eq_at : d.below text = d.at i ↔ '/' :: text.toList = i.text := by
  rw [below, Dir.at, String.ofList_inj, List.append_cancel_left_eq]

/-- Which texts below a directory start with a path within it does not depend on the directory. -/
theorem hasStart_below_at :
    Text.hasStart (d.below text) (d.at i) = i.text.isPrefixOf ('/' :: text.toList) := by
  rw [Text.hasStart, below, Dir.at, String.toList_ofList, String.toList_ofList, Bool.eq_iff_iff,
    List.isPrefixOf_iff_prefix, List.isPrefixOf_iff_prefix, List.prefix_append_right_inj]

/-- All texts below a directory start with its path, and with those above it. -/
theorem hasStart_below {front rest : List Segment} (h : d.names = front ++ rest) :
    Text.hasStart (d.below text) (ofNames d.slashes front) = true := by
  have hpath : ofSegments d.slashes front <+: d.stem ++ ['/'] := by
    refine (ofSegments_append_front d.slashes front rest).trans ?_
    rw [← h, stem_slash, appendPart]
    split
    · rw [List.append_nil]
    · exact List.prefix_append _ _
  rw [Text.hasStart, below, String.toList_ofList, toList_ofNames, List.isPrefixOf_iff_prefix,
    ← List.singleton_append, ← List.append_assoc]
  exact hpath.trans (List.prefix_append _ _)

/-- The path of the root is one within it. -/
theorem path_eq_at_root (h : d.names = []) :
    d.path = d.at ⟨[], true, names_nil, Or.inr rfl⟩ := by
  refine String.toList_inj.mp ?_
  rw [toList_at, Inner.text_root _ rfl, stem_slash, path, toList_ofNames, h]
  rcases d.isRoot with hk | hk <;> rw [hk] <;> decide

end Dir

end Path

end PackageLint
