import PackageLint.Check.Context
import PackageLint.Proofs.RootedPaths

/-!
# Paths within a directory

What lies in a directory is reached by a text that starts with a slash and does not depend on the
directory. The text in front of it is the path of the directory, except that the root keeps none of its
slash, or one of its two. Nearly everything a path is asked for can be read off the text behind: its
ending, its extension, what it is called below the directory.

A value that never leads up is put below a directory by appending what remains of it when empty and `.`
segments are dropped. One of which nothing remains names the directory itself; when it ends with a
slash, that is still a path within.

## Main definitions

* `Path.Dir` — a directory, given by its slashes and names
* `Path.Inner` — the way to something within a directory
* `Path.Dir.at` — the path to it

## Main results

* `Path.Dir.join_eq_at` — a value put below a directory is a path within it
* `Path.Dir.normalize_at` — the normal form of a path within
* `Path.Dir.at_injective` — different ways lead to different paths
-/

namespace PackageLint.Path

/-! ### Directories -/

/-- A directory in normal form. -/
structure Dir where
  /-- The number of slashes at its start. -/
  slashes : Nat
  /-- The names that lead to it. -/
  names : List Segment
  isRoot : IsRoot slashes
  isNames : Names names

/-- The way to something within a directory. A way through no names leads to the directory itself, and
ends with a slash. -/
structure Inner where
  /-- The names that lead to it. -/
  names : List Segment
  /-- Whether it ends with a slash. -/
  slash : Bool
  isNames : Names names
  leads : names ≠ [] ∨ slash = true

namespace Dir

/-- The path of a directory. -/
def path (d : Dir) : String := ofNames d.slashes d.names

/-- The path of a directory without a slash at its end. -/
def stem (d : Dir) : List Char :=
  if d.names = [] then List.replicate (d.slashes - 1) '/' else ofSegments d.slashes d.names

end Dir

/-- The text that leads to something within a directory. -/
def Inner.text (i : Inner) : List Char :=
  if i.slash then appendPart (ofSegments 1 i.names) [] else ofSegments 1 i.names

/-- The path to something within a directory. -/
def Dir.at (d : Dir) (i : Inner) : String := String.ofList (d.stem ++ i.text)

@[simp] theorem Dir.toList_at (d : Dir) (i : Inner) : (d.at i).toList = d.stem ++ i.text := by
  simp [Dir.at]

/-! ### The text of a way -/

namespace Inner

theorem ofSegments_one (names : List Segment) :
    ofSegments 1 names = '/' :: ['/'].intercalate names := rfl

theorem text_root (i : Inner) (h : i.names = []) : i.text = ['/'] := by
  have hslash : i.slash = true := i.leads.resolve_left (by simp [h])
  simp [text, hslash, h, ofSegments_one, appendPart, List.intercalate]

/-- A text leads through its names, with a slash behind them if there is one. -/
theorem text_eq (i : Inner) (h : i.names ≠ []) :
    i.text = ofSegments 1 i.names ++ if i.slash then ['/'] else [] := by
  obtain ⟨front, s, hfront, -, hs⟩ := i.isNames.exists_concat h
  rw [text]
  split
  · rw [appendPart_nil (ofSegments_ne_nil (Or.inl rfl) _), if_neg]
    rw [hfront]
    exact getLast?_ofSegments_ne 1 front hs
  · rw [List.append_nil]

theorem head?_text (i : Inner) : i.text.head? = some '/' := by
  by_cases h : i.names = []
  · rw [text_root i h]
    rfl
  · rw [text_eq i h, ofSegments_one]
    rfl

theorem text_ne_nil (i : Inner) : i.text ≠ [] := by
  intro h
  have := i.head?_text
  simp [h] at this

/-- A way ends with a slash where its text does. -/
theorem getLast?_text (i : Inner) : i.text.getLast? = some '/' ↔ i.slash = true := by
  by_cases h : i.names = []
  · simp [text_root i h, i.leads.resolve_left (by simp [h])]
  · obtain ⟨front, s, hfront, -, hs⟩ := i.isNames.exists_concat h
    rw [text_eq i h]
    cases i.slash with
    | true => simp
    | false =>
      rw [if_neg (by simp), List.append_nil, hfront]
      simpa using getLast?_ofSegments_ne 1 front hs

end Inner

/-! ### Paths within a directory -/

namespace Dir

variable (d : Dir) (i : Inner)

theorem stem_append {names : List Segment} (h : names ≠ []) :
    d.stem ++ ofSegments 1 names = ofSegments d.slashes (d.names ++ names) := by
  rw [stem]
  split
  next hroot =>
    rw [hroot, List.nil_append, Inner.ofSegments_one, ofSegments]
    rcases d.isRoot with hk | hk <;> simp [hk, List.replicate]
  next hnames =>
    induction names using List.reverseRecOn with
    | nil => exact absurd rfl h
    | append_singleton front s ih =>
      by_cases hfront : front = []
      · subst hfront
        rw [List.nil_append, ofSegments_concat hnames]
        simp [Inner.ofSegments_one, List.intercalate]
      · rw [ofSegments_concat hfront, ← List.append_assoc, ih hfront, ← List.append_assoc,
          ofSegments_concat (by simp [hnames])]

theorem stem_slash : d.stem ++ ['/'] = appendPart (ofSegments d.slashes d.names) [] := by
  rw [stem]
  split
  next hroot =>
    rw [hroot]
    rcases d.isRoot with hk | hk <;> rw [hk] <;> decide
  next hnames =>
    obtain ⟨front, s, hfront, -, hs⟩ := d.isNames.exists_concat hnames
    rw [appendPart_nil (ofSegments_ne_nil d.isRoot _), if_neg]
    rw [hfront]
    exact getLast?_ofSegments_ne _ front hs

/-- A path within a directory goes through the names of both, with the slash of the way. -/
theorem toList_at_eq :
    (d.at i).toList
      = if i.slash then appendPart (ofSegments d.slashes (d.names ++ i.names)) []
        else ofSegments d.slashes (d.names ++ i.names) := by
  rw [toList_at]
  by_cases h : i.names = []
  · rw [i.text_root h, i.leads.resolve_left (by simp [h]), if_pos rfl, h, List.append_nil, stem_slash]
  · rw [i.text_eq h, ← List.append_assoc, stem_append d h]
    split
    · obtain ⟨front, s, hfront, -, hs⟩ := i.isNames.exists_concat h
      rw [appendPart_nil (ofSegments_ne_nil d.isRoot _), if_neg]
      rw [hfront, ← List.append_assoc]
      exact getLast?_ofSegments_ne _ _ hs
    · rw [List.append_nil]

theorem names_within : Names (d.names ++ i.names) := d.isNames.append i.isNames

/-- The normal form of a path within a directory. -/
theorem normalize_at : normalize (d.at i) = ofNames d.slashes (d.names ++ i.names) := by
  rw [normalize, toList_at_eq]
  split
  · rw [normalizeChars_trailing, normalizeChars_ofNames d.isRoot (d.names_within i)]
    rfl
  · rw [normalizeChars_ofNames d.isRoot (d.names_within i)]
    rfl

theorem at_eq_ofNames (h : i.slash = false) : d.at i = ofNames d.slashes (d.names ++ i.names) := by
  refine String.toList_inj.mp ?_
  rw [toList_at_eq, if_neg (by simp [h]), toList_ofNames]

theorem getLast?_at : (d.at i).toList.getLast? = some '/' ↔ i.slash = true := by
  rw [toList_at, List.getLast?_append_of_ne_nil _ i.text_ne_nil, i.getLast?_text]

end Dir

theorem Inner.ext_iff' {i j : Inner} : i = j ↔ i.names = j.names ∧ i.slash = j.slash := by
  cases i
  cases j
  simp

/-- Different ways lead to different paths. -/
theorem Dir.at_injective (d : Dir) {i j : Inner} (h : d.at i = d.at j) : i = j := by
  refine Inner.ext_iff'.mpr ⟨?_, ?_⟩
  · have hnormal := congrArg normalize h
    rw [normalize_at, normalize_at,
      ofNames_inj d.isRoot.le (d.names_within i) d.isRoot.le (d.names_within j)] at hnormal
    exact List.append_cancel_left hnormal.2
  · refine Bool.eq_iff_iff.mpr ?_
    rw [← d.getLast?_at, ← d.getLast?_at, h]

/-! ### Values put below a directory -/

/-- Whether a value leads up. -/
def leadsUp (value : String) : Bool := (Text.pieces '/' value.toList).contains up

/-- The names that a value goes through. -/
def namesOf (value : String) : List Segment :=
  (Text.pieces '/' value.toList).filter fun s => s ≠ [] && s ≠ ['.']

/-- Whether a value that does not lead up names the directory that it is put below. -/
def namesItself (value : String) : Bool :=
  (namesOf value).isEmpty && value.toList.getLast? != some '/'

/-- Whether a value leads to something within the directory that it is put below. -/
def Descends (value : String) : Prop := leadsUp value = false ∧ namesItself value = false

instance (value : String) : Decidable (Descends value) := inferInstanceAs (Decidable (_ ∧ _))

theorem names_namesOf {value : String} (h : leadsUp value = false) : Names (namesOf value) := by
  intro s hs
  obtain ⟨hmem, hkept⟩ := List.mem_filter.mp hs
  simp only [Bool.and_eq_true, decide_eq_true_eq] at hkept
  refine ⟨hkept.1, hkept.2, ?_, Text.not_mem_of_mem_pieces hmem⟩
  rintro rfl
  have hup : (Text.pieces '/' value.toList).contains up = true := List.contains_iff_mem.mpr hmem
  rw [leadsUp, hup] at h
  exact absurd h (by decide)

/-- The way that a value describes. -/
def Inner.ofValue (value : String) (h : Descends value) : Inner where
  names := namesOf value
  slash := value.toList.getLast? = some '/'
  isNames := names_namesOf h.1
  leads := by
    have := h.2
    simp only [namesItself, Bool.and_eq_false_iff, List.isEmpty_eq_false_iff, bne_eq_false_iff_eq]
      at this
    simpa using this

/-- Segments that do not lead up are pushed when they are names, and dropped otherwise. -/
theorem foldl_pushSegment_filter (rooted : Bool) {segments : List Segment} (h : up ∉ segments)
    (stack : List Segment) :
    segments.foldl (pushSegment rooted) stack
      = (segments.filter fun s => s ≠ [] && s ≠ ['.']).reverse ++ stack := by
  induction segments generalizing stack with
  | nil => rfl
  | cons s rest ih =>
    obtain ⟨hs, hrest⟩ : up ≠ s ∧ up ∉ rest := by simpa using h
    rw [List.foldl_cons, ih hrest]
    by_cases hskip : s = [] ∨ s = ['.']
    · have hpush : pushSegment rooted stack s = stack := by
        rw [pushSegment.eq_def, if_pos (by simpa using hskip)]
      rw [hpush, List.filter_cons_of_neg (by rcases hskip with rfl | rfl <;> simp)]
    · obtain ⟨hnil, hdot⟩ := not_or.mp hskip
      have hup : s ≠ ['.', '.'] := Ne.symm hs
      have hpush : pushSegment rooted stack s = s :: stack := by
        rw [pushSegment.eq_def, if_neg (by simp [hnil, hdot]), if_neg hup]
      rw [hpush, List.filter_cons_of_pos (by simp [hnil, hdot])]
      simp

theorem filter_pieces_stripLeading (cs : List Char) :
    ((Text.pieces '/' (Text.stripLeading '/' cs)).filter fun s => s ≠ [] && s ≠ ['.'])
      = (Text.pieces '/' cs).filter fun s => s ≠ [] && s ≠ ['.'] := by
  induction cs with
  | nil => rfl
  | cons c rest ih =>
    by_cases hc : c = '/'
    · subst hc
      rw [Text.pieces_cons_self, List.filter_cons_of_neg (by simp), ← ih]
      simp [Text.stripLeading]
    · simp [Text.stripLeading, hc]

theorem up_not_mem_pieces_stripLeading {cs : List Char} (h : up ∉ Text.pieces '/' cs) :
    up ∉ Text.pieces '/' (Text.stripLeading '/' cs) := by
  induction cs with
  | nil => exact h
  | cons c rest ih =>
    by_cases hc : c = '/'
    · subst hc
      rw [Text.pieces_cons_self, List.mem_cons, not_or] at h
      simpa [Text.stripLeading] using ih h.2
    · simpa [Text.stripLeading, hc] using h

namespace Dir

variable (d : Dir)

/-- A value that does not lead up, put below a directory, goes through the names of both. -/
theorem normalizeChars_value {value : String} (h : leadsUp value = false) :
    normalizeChars (appendPart d.path.toList (Text.stripLeading '/' value.toList))
      = ofSegments d.slashes (d.names ++ namesOf value) := by
  have hup : up ∉ Text.pieces '/' value.toList := by
    simpa [leadsUp] using h
  have hhead := head?_stripLeading '/' value.toList
  have hall : Names (d.names ++ namesOf value) := d.isNames.append (names_namesOf h)
  have hsegments : normalSegments (appendPart d.path.toList (Text.stripLeading '/' value.toList))
      = d.names ++ namesOf value := by
    rw [normalSegments_appendPart _ hhead,
      foldl_pushSegment_filter _ (up_not_mem_pieces_stripLeading hup), filter_pieces_stripLeading,
      List.reverse_append, List.reverse_reverse, List.reverse_reverse, path, toList_ofNames,
      normalSegments_ofNames d.isRoot.le d.isNames]
    rfl
  have hroot : rootSlashes (appendPart d.path.toList (Text.stripLeading '/' value.toList))
      = d.slashes := by
    rw [rootSlashes_appendPart _ hhead, path, toList_ofNames, rootSlashes_ofNames d.isRoot.le d.isNames]
  rw [← normalizeChars_ofNames d.isRoot hall]
  refine normalizeChars_congr ?_ ?_
  · rw [hroot, rootSlashes_ofNames d.isRoot.le hall]
  · rw [hsegments, normalSegments_ofNames d.isRoot.le hall]

/-- A value that descends, put below a directory, is a path within it. -/
theorem join_eq_at {value : String} (h : Descends value) :
    join d.path value = d.at (.ofValue value h) := by
  refine String.toList_inj.mp ?_
  rw [toList_join, joinChars_eq, d.normalizeChars_value h.1, toList_at_eq]
  simp only [Inner.ofValue, decide_eq_true_eq]

/-- A value that names the directory itself gives its path. -/
theorem join_eq_path {value : String} (h : leadsUp value = false) (hself : namesItself value = true) :
    join d.path value = d.path := by
  simp only [namesItself, Bool.and_eq_true, List.isEmpty_iff, bne_iff_ne] at hself
  refine String.toList_inj.mp ?_
  rw [toList_join, joinChars_eq, d.normalizeChars_value h, if_neg hself.2, hself.1, List.append_nil,
    path, toList_ofNames]

end Dir

end PackageLint.Path
