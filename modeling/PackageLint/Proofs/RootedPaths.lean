import PackageLint.FileTree.Memory
import PackageLint.Proofs.PathForms

/-!
# Paths from a root

Below a root the normal form is a list of names, and the pieces of a path can be read off that list:
its parent drops the last name, its base name is that name, and the directories above it are its
initial segments, the longest first.

## Main definitions

* `Path.ofNames` — the normal path from a root through names
* `Path.Names` — lists of names

## Main results

* `Path.ofNames_inj` — different names give different paths
* `Path.join_ofNames` — a name put below a directory
* `Path.ancestors_ofNames` — the directories above a path
-/

namespace PackageLint

namespace Path

/-- Whether all segments are names. -/
def Names (segments : List Segment) : Prop := ∀ s ∈ segments, IsName s

instance (segments : List Segment) : Decidable (Names segments) :=
  inferInstanceAs (Decidable (∀ s ∈ segments, IsName s))

/-- The normal path from a root, which has one or two slashes, through names. -/
def ofNames (slashes : Nat) (names : List Segment) : String :=
  String.ofList (ofSegments slashes names)

/-- Whether a number is one of slashes at a root. -/
def IsRoot (slashes : Nat) : Prop := slashes = 1 ∨ slashes = 2

instance (slashes : Nat) : Decidable (IsRoot slashes) := inferInstanceAs (Decidable (_ ∨ _))

variable {k : Nat} {names : List Segment} {s : Segment}

theorem IsRoot.ne_zero (h : IsRoot k) : k ≠ 0 := by rcases h with rfl | rfl <;> omega

theorem IsRoot.le (h : IsRoot k) : k ≤ 2 := by rcases h with rfl | rfl <;> omega

theorem Names.settled (h : Names names) (rooted : Bool) : Settled rooted names.reverse :=
  ⟨names.reverse, 0, by simp, fun s hs => h s (List.mem_reverse.mp hs), fun _ => rfl⟩

theorem names_nil : Names [] := by simp [Names]

theorem names_append {a b : List Segment} : Names (a ++ b) ↔ Names a ∧ Names b := by
  simp only [Names, List.mem_append]
  exact ⟨fun h => ⟨fun s hs => h s (Or.inl hs), fun s hs => h s (Or.inr hs)⟩,
    fun h s hs => hs.elim (h.1 s) (h.2 s)⟩

theorem Names.of_subset (h : Names names) {others : List Segment} (hsub : others ⊆ names) :
    Names others := fun s hs => h s (hsub hs)

theorem names_singleton : Names [s] ↔ IsName s := by simp [Names]

theorem names_cons : Names (s :: names) ↔ IsName s ∧ Names names := by simp [Names]

theorem Names.append {others : List Segment} (h : Names names) (hothers : Names others) :
    Names (names ++ others) := names_append.mpr ⟨h, hothers⟩

theorem Names.concat (h : Names names) (hs : IsName s) : Names (names ++ [s]) :=
  h.append (names_singleton.mpr hs)

theorem ofList_ne_empty (h : IsName s) : String.ofList s ≠ "" := by
  intro hempty
  exact h.ne_nil (by simpa using congrArg String.toList hempty)

/-- Names that are not none end with a name. -/
theorem Names.exists_concat (h : Names names) (hne : names ≠ []) :
    ∃ front s, names = front ++ [s] ∧ Names front ∧ IsName s := by
  obtain ⟨front, s, rfl⟩ := (List.eq_nil_or_concat' names).resolve_left hne
  obtain ⟨hfront, hs⟩ := names_append.mp h
  exact ⟨front, s, rfl, hfront, names_singleton.mp hs⟩

/-! ### The normal form -/

@[simp] theorem toList_ofNames (k : Nat) (names : List Segment) :
    (ofNames k names).toList = ofSegments k names := by simp [ofNames]

theorem rootSlashes_ofNames (hk : k ≤ 2) (h : Names names) :
    rootSlashes (ofSegments k names) = k :=
  rootSlashes_ofSegments hk (fun s hs => (h s hs).no_slash) fun s hs => (h s hs).ne_nil

theorem normalSegments_ofNames (hk : k ≤ 2) (h : Names names) :
    normalSegments (ofSegments k names) = names :=
  normalSegments_ofSegments hk (h.settled _)

theorem ofSegments_ne_nil (hk : IsRoot k) (names : List Segment) : ofSegments k names ≠ [] := by
  rcases hk with rfl | rfl <;> simp [ofSegments]

theorem normalizeChars_ofNames (hk : IsRoot k) (h : Names names) :
    normalizeChars (ofSegments k names) = ofSegments k names :=
  normalizeChars_ofSegments hk.le (h.settled _) (ofSegments_ne_nil hk names)

@[simp] theorem normalize_ofNames (hk : IsRoot k) (h : Names names) :
    normalize (ofNames k names) = ofNames k names := by
  rw [normalize, toList_ofNames, normalizeChars_ofNames hk h]
  rfl

/-- Different names give different paths. -/
theorem ofNames_inj {j : Nat} {others : List Segment} (hk : k ≤ 2) (h : Names names) (hj : j ≤ 2)
    (ho : Names others) : ofNames k names = ofNames j others ↔ k = j ∧ names = others := by
  constructor
  · intro heq
    have heq : ofSegments k names = ofSegments j others := by
      simpa using congrArg String.toList heq
    refine ⟨?_, ?_⟩
    · rw [← rootSlashes_ofNames hk h, heq, rootSlashes_ofNames hj ho]
    · rw [← normalSegments_ofNames hk h, heq, normalSegments_ofNames hj ho]
  · rintro ⟨rfl, rfl⟩
    rfl

/-- Every path from a root has a normal form through names. -/
theorem normalize_eq_ofNames {path : String} (h : rootSlashes path.toList ≠ 0) :
    ∃ k names, IsRoot k ∧ Names names ∧ normalize path = ofNames k names := by
  refine ⟨rootSlashes path.toList, normalSegments path.toList, ?_, ?_, ?_⟩
  · have := rootSlashes_le path.toList
    rw [IsRoot]
    omega
  · exact fun s hs => isName_of_mem_normalSegments h hs
  · rcases normalizeChars_eq path.toList with ⟨hroot, -⟩ | ⟨-, heq⟩
    · exact absurd hroot h
    · rw [normalize, heq]
      rfl

theorem isRooted_iff {path : String} : isRooted path = true ↔ rootSlashes path.toList ≠ 0 := by
  rw [isRooted, Text.hasStart]
  cases hp : path.toList with
  | nil => simp [rootSlashes.eq_def]
  | cons c rest =>
    by_cases hc : c = '/'
    · subst hc
      simp only [String.reduceToList, List.isPrefixOf, BEq.rfl, Bool.true_and, true_iff]
      rw [rootSlashes.eq_def]
      split <;> simp_all
    · simp [rootSlashes.eq_def, List.isPrefixOf, hc, Ne.symm hc]

/-- A normal form that starts at a root goes through names. -/
theorem normalize_rooted {path : String} (h : isRooted (normalize path) = true) :
    ∃ k names, IsRoot k ∧ Names names ∧ normalize path = ofNames k names := by
  rw [isRooted_iff, normalize, String.toList_ofList, rootSlashes_normalizeChars] at h
  exact normalize_eq_ofNames h

/-- The root `/` has one slash, and no name follows. -/
theorem ofNames_eq_root_iff (hk : IsRoot k) (h : Names names) :
    ofNames k names = "/" ↔ k = 1 ∧ names = [] := by
  have hroot : ("/" : String) = ofNames 1 [] := by decide
  rw [hroot, ofNames_inj hk.le h (by omega) names_nil]

theorem isRooted_ofNames (hk : IsRoot k) (h : Names names) : isRooted (ofNames k names) = true := by
  rw [isRooted_iff, toList_ofNames, rootSlashes_ofNames hk.le h]
  exact hk.ne_zero

theorem isRooted_normalize (path : String) : isRooted (normalize path) = isRooted path := by
  rw [Bool.eq_iff_iff, isRooted_iff, isRooted_iff, normalize, String.toList_ofList,
    rootSlashes_normalizeChars]

/-- A path below another starts at a root when the other does. -/
theorem isRooted_join (base part : String) : isRooted (join base part) = isRooted base := by
  have hpart := head?_stripLeading '/' part.toList
  have hslashes : rootSlashes (join base part).toList = rootSlashes base.toList := by
    rw [toList_join, joinChars_eq]
    split
    · rw [rootSlashes_appendPart _ (by simp), rootSlashes_normalizeChars,
        rootSlashes_appendPart _ hpart]
    · rw [rootSlashes_normalizeChars, rootSlashes_appendPart _ hpart]
  rw [Bool.eq_iff_iff, isRooted_iff, isRooted_iff, hslashes]

/-! ### Its characters -/

theorem ofSegments_concat (hne : names ≠ []) (k : Nat) (s : Segment) :
    ofSegments k (names ++ [s]) = ofSegments k names ++ '/' :: s := by
  have hinter : ['/'].intercalate (names ++ [s]) = ['/'].intercalate names ++ '/' :: s := by
    induction names with
    | nil => exact absurd rfl hne
    | cons t rest ih =>
      cases rest with
      | nil => simp [List.intercalate, List.intersperse]
      | cons u rest =>
        have := ih (List.cons_ne_nil _ _)
        simp only [List.intercalate, List.cons_append, List.intersperse_cons_cons,
          List.flatten_cons, List.append_assoc] at this ⊢
        rw [this]
  rw [ofSegments, hinter, ofSegments, List.append_assoc]

theorem ofSegments_concat_split (hk : IsRoot k) (names : List Segment) (s : Segment) :
    ∃ front, ofSegments k (names ++ [s]) = front ++ '/' :: s
      ∧ (names = [] → front ++ ['/'] = ofSegments k [])
      ∧ (names ≠ [] → front = ofSegments k names) := by
  cases names with
  | nil =>
    rcases hk with rfl | rfl
    · exact ⟨[], by simp [ofSegments, List.intercalate], by decide, by simp⟩
    · exact ⟨['/'], by simp [ofSegments, List.intercalate, List.replicate], by decide, by simp⟩
  | cons t rest =>
    exact ⟨_, ofSegments_concat (List.cons_ne_nil _ _) k s, by simp, fun _ => rfl⟩

theorem head?_name (h : IsName s) : s.head? ≠ some '/' := by
  intro hhead
  obtain ⟨rest, rfl⟩ := List.head?_eq_some_iff.mp hhead
  exact h.no_slash List.mem_cons_self

theorem getLast?_name (h : IsName s) : s.getLast? ≠ some '/' := by
  intro hlast
  obtain ⟨front, rfl⟩ := List.getLast?_eq_some_iff.mp hlast
  exact h.no_slash (by simp)

theorem stripLeading_name (h : IsName s) : Text.stripLeading '/' s = s := by
  cases s with
  | nil => rfl
  | cons c rest =>
    have hc : c ≠ '/' := by
      rintro rfl
      exact h.no_slash List.mem_cons_self
    simp [Text.stripLeading, hc]

/-- The last segment ends a path. -/
theorem suffix_ofSegments (k : Nat) (segments : List Segment) (s : Segment) :
    s <:+ ofSegments k (segments ++ [s]) := by
  by_cases hne : segments = []
  · subst hne
    exact ⟨List.replicate k '/', by simp [ofSegments, List.intercalate]⟩
  · rw [ofSegments_concat hne]
    exact ⟨ofSegments k segments ++ ['/'], by simp⟩

theorem IsName.append {start ending : Segment} (h : IsName ending) (hstart : '/' ∉ start) :
    IsName (start ++ ending) where
  ne_nil := by simp [h.ne_nil]
  ne_here heq := by
    rcases List.append_eq_singleton_iff.mp heq with ⟨-, hend⟩ | ⟨-, hend⟩
    · exact h.ne_here hend
    · exact h.ne_nil hend
  ne_up heq := by
    rcases List.append_eq_cons_iff.mp heq with ⟨-, hend⟩ | ⟨rest, -, hend⟩
    · exact h.ne_up hend
    · rcases List.append_eq_singleton_iff.mp hend.symm with ⟨-, hend⟩ | ⟨-, hend⟩
      · exact h.ne_here hend
      · exact h.ne_nil hend
  no_slash := by simp [h.no_slash, hstart]

/-- A path ends as its last name does. -/
theorem getLast?_ofSegments (k : Nat) (names : List Segment) (hs : IsName s) :
    (ofSegments k (names ++ [s])).getLast? = s.getLast? := by
  obtain ⟨front, hfront⟩ := suffix_ofSegments k names s
  rw [← hfront, List.getLast?_append_of_ne_nil _ hs.ne_nil]

theorem getLast?_ofSegments_ne (k : Nat) (names : List Segment) (hs : IsName s) :
    (ofSegments k (names ++ [s])).getLast? ≠ some '/' := by
  rw [getLast?_ofSegments k names hs]
  exact getLast?_name hs

/-- The path to a name is that to its directory, with a slash between them unless that is the root. -/
theorem ofSegments_concat_eq (hk : IsRoot k) (h : Names names) (s : Segment) :
    ofSegments k (names ++ [s]) = appendPart (ofSegments k names) s := by
  rcases List.eq_nil_or_concat' names with rfl | ⟨front, t, rfl⟩
  · rcases hk with rfl | rfl <;> simp [ofSegments, appendPart, List.intercalate, List.replicate]
  · have hlast := getLast?_ofSegments_ne k front (names_singleton.mp (names_append.mp h).2)
    rw [ofSegments_concat (by simp), appendPart, if_neg]
    simp [ofSegments_ne_nil hk, hlast]

/-- A name put below any path is the last one of the normal form. -/
theorem normalizeChars_appendPart_name (base : List Char) (hs : IsName s) :
    normalizeChars (appendPart base s)
      = ofSegments (rootSlashes base) (normalSegments base ++ [s]) := by
  have hsegments : normalSegments (appendPart base s) = normalSegments base ++ [s] := by
    rw [normalSegments_appendPart base (head?_name hs), Text.pieces_of_not_mem hs.no_slash,
      List.foldl_cons, List.foldl_nil, pushSegment_name hs, List.reverse_cons, List.reverse_reverse]
  rcases normalizeChars_eq (appendPart base s) with ⟨-, hnil, -⟩ | ⟨-, heq⟩
  · simp [hsegments] at hnil
  · rw [heq, hsegments, rootSlashes_appendPart base (head?_name hs)]

theorem getLast?_appendPart (base : List Char) (hs : IsName s) :
    (appendPart base s).getLast? = s.getLast? := by
  obtain ⟨front, c, rfl⟩ := (List.eq_nil_or_concat' s).resolve_left hs.ne_nil
  rw [appendPart]
  split
  · rw [← List.append_assoc, List.getLast?_concat, List.getLast?_concat]
  · rw [← List.cons_append, ← List.append_assoc, List.getLast?_concat, List.getLast?_concat]

/-- A name put below a path whose normal form is known. -/
theorem join_name {base : String} (hk : IsRoot k) (h : Names names)
    (hb : normalize base = ofNames k names) (hs : IsName s) :
    join base (String.ofList s) = ofNames k (names ++ [s]) := by
  have hbase : normalizeChars base.toList = ofSegments k names := by
    simpa [normalize] using congrArg String.toList hb
  refine String.toList_inj.mp ?_
  rw [toList_join, joinChars_eq, String.toList_ofList, if_neg (getLast?_name hs),
    stripLeading_name hs, ← normalizeChars_appendPart _ (head?_name hs), hbase,
    ← ofSegments_concat_eq hk h s, toList_ofNames]
  exact normalizeChars_ofNames hk (h.concat hs)

/-- A name put below a directory. -/
theorem join_ofNames (hk : IsRoot k) (h : Names names) (hs : IsName s) :
    join (ofNames k names) (String.ofList s) = ofNames k (names ++ [s]) :=
  join_name hk h (normalize_ofNames hk h) hs

/-- An ending that is a name is that of the normal form too. -/
theorem hasEnd_normalize {path ending : String} (hname : IsName ending.toList)
    (h : Text.hasEnd path ending = true) : Text.hasEnd (normalize path) ending = true := by
  obtain ⟨front, hfront⟩ := List.isSuffixOf_iff_suffix.mp h
  obtain ⟨before, start, hstart, hall⟩ := Text.exists_pieces_append '/' front
  have hpieces := hall _ hname.no_slash
  have hlast : IsName (start ++ ending.toList) := hname.append hstart
  have hsegments : ∃ segments, normalSegments path.toList = segments ++ [start ++ ending.toList] := by
    rw [normalSegments, ← hfront, hpieces, List.foldl_append]
    simp only [List.foldl_cons, List.foldl_nil, pushSegment_name hlast, List.reverse_cons]
    exact ⟨_, rfl⟩
  obtain ⟨segments, hsegments⟩ := hsegments
  rw [Text.hasEnd, List.isSuffixOf_iff_suffix, normalize, String.toList_ofList]
  rcases normalizeChars_eq path.toList with ⟨-, hnil, -⟩ | ⟨-, heq⟩
  · rw [hsegments] at hnil
    simp at hnil
  · rw [heq, hsegments]
    exact (List.suffix_append _ _).trans (suffix_ofSegments _ _ _)

/-- A path that is put below another one keeps an ending that is a name. -/
theorem hasEnd_join {base part ending : String} (hname : IsName ending.toList)
    (h : Text.hasEnd part ending = true) : Text.hasEnd (join base part) ending = true := by
  obtain ⟨front, hfront⟩ := List.isSuffixOf_iff_suffix.mp h
  have hlast : part.toList.getLast? ≠ some '/' := by
    rw [← hfront, List.getLast?_append_of_ne_nil _ hname.ne_nil]
    exact getLast?_name hname
  have hstrip : ending.toList <:+ Text.stripLeading '/' part.toList := by
    have hself := stripLeading_name hname
    rw [Text.stripLeading] at hself
    rw [← hfront, Text.stripLeading, List.dropWhile_append, hself]
    split
    · exact List.suffix_rfl
    · exact List.suffix_append _ _
  have hbelow : Text.hasEnd (String.ofList (appendPart base.toList
      (Text.stripLeading '/' part.toList))) ending = true := by
    rw [Text.hasEnd, List.isSuffixOf_iff_suffix, String.toList_ofList, appendPart]
    split
    · exact hstrip.trans (List.suffix_append _ _)
    · exact hstrip.trans ((List.suffix_cons _ _).trans (List.suffix_append _ _))
  have hjoin : join base part
      = normalize (String.ofList (appendPart base.toList (Text.stripLeading '/' part.toList))) := by
    rw [← String.toList_inj, toList_join, joinChars_eq, if_neg hlast, normalize,
      String.toList_ofList, String.toList_ofList]
  rw [hjoin]
  exact hasEnd_normalize hname hbelow

/-! ### Its pieces -/

theorem splitLast_name {cs : List Char} (h : '/' ∉ cs) : splitLast cs = ([], cs) := by
  induction cs with
  | nil => rfl
  | cons c rest ih =>
    obtain ⟨hc, hrest⟩ : '/' ≠ c ∧ '/' ∉ rest := by simpa using h
    simp [splitLast, ih hrest, Ne.symm hc]

theorem splitLast_append {a b : List Char} (h : '/' ∉ b) :
    splitLast (a ++ '/' :: b) = (a ++ ['/'], b) := by
  induction a with
  | nil => simp [splitLast, splitLast_name h]
  | cons c rest ih => simp [splitLast, ih]

theorem splitLast_ofNames (hk : IsRoot k) (hs : IsName s) :
    (splitLast (ofSegments k (names ++ [s]))).2 = s := by
  obtain ⟨front, heq, -⟩ := ofSegments_concat_split hk names s
  rw [heq, splitLast_append hs.no_slash]

theorem baseName_ofNames (hk : IsRoot k) (hs : IsName s) :
    baseName (ofNames k (names ++ [s])) = String.ofList s := by
  rw [baseName, toList_ofNames, splitLast_ofNames hk hs]

theorem parent_root (hk : IsRoot k) : parent (ofNames k []) = ofNames k [] := by
  rcases hk with rfl | rfl <;> decide

theorem dropTrailingSlashes_append {cs : List Char} (h : cs.getLast? ≠ some '/') :
    dropTrailingSlashes (cs ++ ['/']) = cs := by
  rcases List.eq_nil_or_concat' cs with rfl | ⟨front, c, rfl⟩
  · rfl
  · have hc : c ≠ '/' := by simpa using h
    simp [dropTrailingSlashes, hc]

/-- The parent of a path drops its last name. -/
theorem parent_ofNames (hk : IsRoot k) (h : Names names) (hs : IsName s) :
    parent (ofNames k (names ++ [s])) = ofNames k names := by
  obtain ⟨front, heq, hnil, hcons⟩ := ofSegments_concat_split hk names s
  refine String.toList_inj.mp ?_
  rw [parent, toList_ofNames, String.toList_ofList, toList_ofNames, parentChars, heq,
    splitLast_append hs.no_slash]
  rcases List.eq_nil_or_concat' names with rfl | ⟨before, t, rfl⟩
  · simp only [hnil rfl]
    rcases hk with rfl | rfl <;> decide
  · have hlast := getLast?_ofSegments_ne k before (names_singleton.mp (names_append.mp h).2)
    obtain rfl := hcons (by simp)
    have hall : (ofSegments k (before ++ [t]) ++ ['/']).all (· = '/') = false := by
      obtain ⟨start, c, hc⟩ :=
        (List.eq_nil_or_concat' (ofSegments k (before ++ [t]))).resolve_left (ofSegments_ne_nil hk _)
      rw [hc] at hlast ⊢
      have hc : c ≠ '/' := by simpa using hlast
      simp [hc]
    simp only [hall, Bool.false_eq_true, if_false]
    exact dropTrailingSlashes_append hlast

/-- The parent of a path from a root is one from the same root. -/
theorem exists_parent_ofNames (hk : IsRoot k) (h : Names names) :
    ∃ front, Names front ∧ parent (ofNames k names) = ofNames k front := by
  rcases List.eq_nil_or_concat' names with rfl | ⟨front, s, rfl⟩
  · exact ⟨[], names_nil, parent_root hk⟩
  · obtain ⟨hfront, hs⟩ := names_append.mp h
    exact ⟨front, hfront, parent_ofNames hk hfront (names_singleton.mp hs)⟩

/-! ### The directories above -/

theorem length_le_ofSegments (k : Nat) (h : Names names) :
    names.length ≤ (ofSegments k names).length := by
  induction names using List.reverseRecOn with
  | nil => exact Nat.zero_le _
  | append_singleton front s ih =>
    obtain ⟨hfront, hs⟩ := names_append.mp h
    have hs : 0 < s.length := List.length_pos_of_ne_nil (names_singleton.mp hs).ne_nil
    by_cases hf : front = []
    · subst hf
      simp only [List.nil_append, List.length_singleton, ofSegments, List.intercalate,
        List.intersperse, List.flatten_cons, List.flatten_nil, List.append_nil, List.length_append]
      omega
    · have := ih hfront
      rw [ofSegments_concat hf]
      simp only [List.length_append, List.length_cons, List.length_nil]
      omega

/-- The chain of parents goes through all initial segments. -/
theorem ancestorsFrom_ofNames (hk : IsRoot k) (h : Names names) {bound : Nat}
    (hb : names.length ≤ bound) :
    ancestorsFrom bound (ofNames k names) = names.inits.reverse.map (ofNames k) := by
  induction names using List.reverseRecOn generalizing bound with
  | nil =>
    cases bound with
    | zero => rfl
    | succ bound => simp [ancestorsFrom, parent_root hk]
  | append_singleton front s ih =>
    obtain ⟨hfront, hs⟩ := names_append.mp h
    have hs := names_singleton.mp hs
    cases bound with
    | zero => simp at hb
    | succ bound =>
      have hne : ofNames k front ≠ ofNames k (front ++ [s]) := by
        rw [Ne, ofNames_inj hk.le hfront hk.le h]
        simp
      rw [ancestorsFrom, parent_ofNames hk hfront hs, if_neg hne,
        ih hfront (by simp at hb; omega)]
      simp

/-- The directories above a path are those of its proper initial segments, the longest first. -/
theorem ancestors_ofNames (hk : IsRoot k) (h : Names names) (hs : IsName s) :
    ancestors (ofNames k (names ++ [s])) = names.inits.reverse.map (ofNames k) := by
  have hall : Names (names ++ [s]) := h.concat hs
  rw [ancestors, parent_ofNames hk h hs]
  refine ancestorsFrom_ofNames hk h ?_
  have := length_le_ofSegments k hall
  rw [← toList_ofNames, String.length_toList, List.length_append] at this
  omega

end Path

end PackageLint
