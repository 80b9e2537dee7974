import Mathlib
import PackageLint.Path.Basic

/-!
# Normal forms of paths

The normal form of a path is computed by a stack machine: segments are pushed, and `..` pops. What
the machine can hold at any moment is a stack of names over a stack of `..`, the latter only where
the path does not start at a root. Pushing such a stack anew, from its bottom, gives it back, and
this is why the normal form of a normal form is itself.

Everything below a base is pushed onto the stack of that base, so a path that is put below another
path may be put below its normal form as well.

## Main definitions

* `Path.IsName` — segments that stand for themselves
* `Path.Settled` — the stacks that the machine can hold
* `Path.ofNames` — the path from a root through names

## Main results

* `Path.normalizeChars_normalizeChars` — the normal form is idempotent
* `Path.normalizeChars_appendPart` — what is put below a path is put below its normal form
* `Path.normalizeChars_joinChars` — a join is normal up to the slash that it keeps at its end
-/

namespace PackageLint

/-! ### Pieces of a text -/

namespace Text

variable {c : Char}

theorem pieces_cons_self (c : Char) (cs : List Char) : pieces c (c :: cs) = [] :: pieces c cs := by
  simp [pieces, split]

theorem pieces_append_sep (c : Char) (a b : List Char) :
    pieces c (a ++ c :: b) = pieces c a ++ pieces c b := by
  induction a with
  | nil => exact pieces_cons_self c b
  | cons x rest ih =>
    simp only [pieces, List.cons_append, List.cons.injEq] at ih
    by_cases hx : x = c <;> simp [pieces, split, hx, ih.1, ih.2]

theorem pieces_of_not_mem {cs : List Char} (h : c ∉ cs) : pieces c cs = [cs] := by
  induction cs with
  | nil => rfl
  | cons x rest ih =>
    obtain ⟨hx, hrest⟩ : c ≠ x ∧ c ∉ rest := by simpa using h
    have ih := ih hrest
    simp only [pieces, List.cons.injEq] at ih
    simp [pieces, split, Ne.symm hx, ih.1, ih.2]

theorem not_mem_of_mem_pieces {cs s : List Char} (h : s ∈ pieces c cs) : c ∉ s := by
  induction cs generalizing s with
  | nil =>
    obtain rfl : s = [] := by simpa [pieces, split] using h
    exact List.not_mem_nil
  | cons x rest ih =>
    by_cases hx : x = c
    · subst hx
      rw [pieces_cons_self] at h
      rcases List.mem_cons.mp h with rfl | h
      · exact List.not_mem_nil
      · exact ih h
    · simp only [pieces, split, if_neg hx] at h
      rcases List.mem_cons.mp h with rfl | h
      · have hrest := ih (s := (split c rest).1) List.mem_cons_self
        simp [Ne.symm hx, hrest]
      · exact ih (List.mem_cons_of_mem _ h)

/-- Texts without a separator are the pieces of what they are joined to. -/
theorem pieces_intercalate {segments : List (List Char)} (h : ∀ s ∈ segments, c ∉ s)
    (hne : segments ≠ []) : pieces c ([c].intercalate segments) = segments := by
  induction segments with
  | nil => exact absurd rfl hne
  | cons s rest ih =>
    obtain ⟨hs, hrest⟩ := List.forall_mem_cons.mp h
    cases rest with
    | nil => simpa [List.intercalate] using pieces_of_not_mem hs
    | cons t rest =>
      have hcons : [c].intercalate (s :: t :: rest) = s ++ c :: [c].intercalate (t :: rest) := by
        simp [List.intercalate, List.intersperse]
      rw [hcons, pieces_append_sep, pieces_of_not_mem hs, ih hrest (List.cons_ne_nil _ _)]
      rfl

theorem pieces_cons_of_ne {x : Char} (h : x ≠ c) (cs : List Char) :
    pieces c (x :: cs) = (x :: (split c cs).1) :: (split c cs).2 := by
  simp [pieces, split, h]

/-- Every character but the separator is in some piece. -/
theorem exists_mem_pieces {x : Char} {cs : List Char} (h : x ∈ cs) (hx : x ≠ c) :
    ∃ piece ∈ pieces c cs, x ∈ piece := by
  induction cs with
  | nil => exact absurd h List.not_mem_nil
  | cons y rest ih =>
    by_cases hy : y = c
    · subst hy
      obtain ⟨piece, hpiece, hmem⟩ := ih ((List.mem_cons.mp h).resolve_left hx)
      rw [pieces_cons_self]
      exact ⟨piece, List.mem_cons_of_mem _ hpiece, hmem⟩
    · rw [pieces_cons_of_ne hy]
      rcases List.mem_cons.mp h with rfl | hrest
      · exact ⟨_, List.mem_cons_self, List.mem_cons_self⟩
      · obtain ⟨piece, hpiece, hmem⟩ := ih hrest
        rcases List.mem_cons.mp hpiece with rfl | hpiece
        · exact ⟨_, List.mem_cons_self, List.mem_cons_of_mem _ hmem⟩
        · exact ⟨piece, List.mem_cons_of_mem _ hpiece, hmem⟩

/-- What comes after the last separator stays in the last piece, whatever it is. -/
theorem exists_pieces_append (c : Char) (front : List Char) :
    ∃ before start, c ∉ start
      ∧ ∀ ending, c ∉ ending → pieces c (front ++ ending) = before ++ [start ++ ending] := by
  induction front with
  | nil => exact ⟨[], [], List.not_mem_nil, fun _ h => pieces_of_not_mem h⟩
  | cons x rest ih =>
    obtain ⟨before, start, hstart, heq⟩ := ih
    by_cases hx : x = c
    · subst hx
      refine ⟨[] :: before, start, hstart, fun ending h => ?_⟩
      rw [List.cons_append, pieces_cons_self, heq ending h, List.cons_append]
    · cases before with
      | nil =>
        refine ⟨[], x :: start, by simp [Ne.symm hx, hstart], fun ending h => ?_⟩
        obtain ⟨hfirst, hothers⟩ := List.cons.inj (heq ending h)
        rw [List.cons_append, pieces_cons_of_ne hx, hfirst, hothers]
        rfl
      | cons first before =>
        refine ⟨(x :: first) :: before, start, hstart, fun ending h => ?_⟩
        obtain ⟨hfirst, hothers⟩ := List.cons.inj (heq ending h)
        rw [List.cons_append, pieces_cons_of_ne hx, hfirst, hothers]
        rfl

end Text

namespace Path

/-! ### The stack machine -/

/-- Whether a segment stands for itself: it is not empty, no `.` and no `..`, and without slash. -/
structure IsName (s : Segment) : Prop where
  ne_nil : s ≠ []
  ne_here : s ≠ ['.']
  ne_up : s ≠ ['.', '.']
  no_slash : '/' ∉ s

instance (s : Segment) : Decidable (IsName s) :=
  decidable_of_iff (s ≠ [] ∧ s ≠ ['.'] ∧ s ≠ ['.', '.'] ∧ '/' ∉ s)
    ⟨fun ⟨hnil, hhere, hup, hslash⟩ => ⟨hnil, hhere, hup, hslash⟩,
      fun h => ⟨h.ne_nil, h.ne_here, h.ne_up, h.no_slash⟩⟩

/-- The segment that leads up. -/
def up : Segment := ['.', '.']

/-- The stacks that the machine can hold: names over `..`, and no `..` at the bottom where there is a
root. The latest segment comes first. -/
def Settled (rooted : Bool) (stack : List Segment) : Prop :=
  ∃ names n, stack = names ++ List.replicate n up ∧ (∀ s ∈ names, IsName s)
    ∧ (rooted = true → n = 0)

theorem settled_nil (rooted : Bool) : Settled rooted [] := ⟨[], 0, rfl, by simp, by simp⟩

theorem pushSegment_name {s : Segment} (h : IsName s) (rooted : Bool) (before : List Segment) :
    pushSegment rooted before s = s :: before := by
  simp [pushSegment, h.ne_nil, h.ne_here, h.ne_up]

theorem pushSegment_nil (rooted : Bool) (before : List Segment) :
    pushSegment rooted before [] = before := rfl

/-- A push keeps the stack as it should be. -/
theorem Settled.push {rooted : Bool} {stack : List Segment} (h : Settled rooted stack)
    {s : Segment} (hs : '/' ∉ s) : Settled rooted (pushSegment rooted stack s) := by
  obtain ⟨names, n, rfl, hnames, hn⟩ := h
  rw [pushSegment.eq_def]
  split
  next => exact ⟨names, n, rfl, hnames, hn⟩
  next hskip =>
    simp only [Bool.or_eq_true, decide_eq_true_eq, not_or] at hskip
    split
    next hup =>
      subst hup
      cases names with
      | nil =>
        cases n with
        | zero =>
          cases rooted with
          | true => exact settled_nil true
          | false => exact ⟨[], 1, rfl, by simp, by simp⟩
        | succ n =>
          refine ⟨[], n + 2, ?_, by simp, fun hr => absurd (hn hr) (by omega)⟩
          simp [List.replicate_succ, up]
      | cons name names =>
        obtain ⟨hname, hrest⟩ := List.forall_mem_cons.mp hnames
        refine ⟨names, n, ?_, hrest, hn⟩
        simp [hname.ne_up]
    next hup =>
      refine ⟨s :: names, n, rfl, List.forall_mem_cons.mpr ⟨⟨hskip.1, hskip.2, hup, hs⟩, hnames⟩, hn⟩

theorem settled_foldl {rooted : Bool} {segments stack : List Segment} (h : Settled rooted stack)
    (hs : ∀ s ∈ segments, '/' ∉ s) : Settled rooted (segments.foldl (pushSegment rooted) stack) := by
  induction segments generalizing stack with
  | nil => exact h
  | cons s rest ih =>
    obtain ⟨hs, hrest⟩ := List.forall_mem_cons.mp hs
    exact ih (h.push hs) hrest

theorem foldl_names (rooted : Bool) {names : List Segment} (h : ∀ s ∈ names, IsName s)
    (stack : List Segment) :
    names.foldl (pushSegment rooted) stack = names.reverse ++ stack := by
  induction names generalizing stack with
  | nil => rfl
  | cons s rest ih =>
    obtain ⟨hs, hrest⟩ := List.forall_mem_cons.mp h
    rw [List.foldl_cons, pushSegment_name hs, ih hrest]
    simp

theorem foldl_ups (n m : Nat) :
    (List.replicate n up).foldl (pushSegment false) (List.replicate m up)
      = List.replicate (m + n) up := by
  induction n generalizing m with
  | zero => rfl
  | succ n ih =>
    have hpush : pushSegment false (List.replicate m up) up = List.replicate (m + 1) up := by
      cases m <;> simp [pushSegment, up, List.replicate_succ]
    rw [List.replicate_succ, List.foldl_cons, hpush, ih]
    congr 1
    omega

/-- Pushed anew from its bottom, a stack is given back. -/
theorem Settled.foldl_reverse {rooted : Bool} {stack : List Segment} (h : Settled rooted stack) :
    stack.reverse.foldl (pushSegment rooted) [] = stack := by
  obtain ⟨names, n, rfl, hnames, hn⟩ := h
  have hnames' : ∀ s ∈ names.reverse, IsName s := fun s hs => hnames s (List.mem_reverse.mp hs)
  rw [List.reverse_append, List.foldl_append, List.reverse_replicate, foldl_names rooted hnames',
    List.reverse_reverse]
  congr 1
  cases rooted with
  | true => rw [hn rfl]; rfl
  | false =>
    have := foldl_ups n 0
    rwa [Nat.zero_add] at this

/-! ### Segments of a normal form -/

theorem settled_normalSegments (cs : List Char) :
    Settled (rootSlashes cs != 0) (normalSegments cs).reverse := by
  rw [normalSegments, List.reverse_reverse]
  exact settled_foldl (settled_nil _) fun s hs => Text.not_mem_of_mem_pieces hs

theorem Settled.no_slash {rooted : Bool} {stack : List Segment} (h : Settled rooted stack) :
    ∀ s ∈ stack, '/' ∉ s := by
  obtain ⟨names, n, rfl, hnames, -⟩ := h
  intro s hs
  rcases List.mem_append.mp hs with hs | hs
  · exact (hnames s hs).no_slash
  · rw [List.eq_of_mem_replicate hs]
    decide

theorem Settled.ne_nil {rooted : Bool} {stack : List Segment} (h : Settled rooted stack) :
    ∀ s ∈ stack, s ≠ [] := by
  obtain ⟨names, n, rfl, hnames, -⟩ := h
  intro s hs
  rcases List.mem_append.mp hs with hs | hs
  · exact (hnames s hs).ne_nil
  · rw [List.eq_of_mem_replicate hs]
    decide

/-- Below a root all segments of the normal form are names. -/
theorem isName_of_mem_normalSegments {cs : List Char} (h : rootSlashes cs ≠ 0) {s : Segment}
    (hs : s ∈ normalSegments cs) : IsName s := by
  obtain ⟨names, n, heq, hnames, hn⟩ := settled_normalSegments cs
  rw [hn (by simp [h]), List.replicate_zero, List.append_nil] at heq
  exact hnames s (heq ▸ List.mem_reverse.mpr hs)

theorem rootSlashes_le (cs : List Char) : rootSlashes cs ≤ 2 := by
  rw [rootSlashes.eq_def]
  split <;> omega

theorem rootSlashes_eq_zero {cs : List Char} (h : cs.head? ≠ some '/') : rootSlashes cs = 0 := by
  rw [rootSlashes.eq_def]
  split <;> simp_all

theorem rootSlashes_replicate {k : Nat} (hk : k ≤ 2) {cs : List Char} (h : cs.head? ≠ some '/') :
    rootSlashes (List.replicate k '/' ++ cs) = k := by
  match k, hk with
  | 0, _ => exact rootSlashes_eq_zero h
  | 1, _ =>
    cases cs with
    | nil => rfl
    | cons c rest =>
      have hc : c ≠ '/' := by simpa using h
      simp [rootSlashes.eq_def, hc]
  | 2, _ =>
    cases cs with
    | nil => rfl
    | cons c rest =>
      have hc : c ≠ '/' := by simpa using h
      simp [rootSlashes.eq_def, List.replicate_succ, hc]

theorem head?_intercalate {segments : List Segment} (h : ∀ s ∈ segments, '/' ∉ s)
    (hne : ∀ s ∈ segments, s ≠ []) : (['/'].intercalate segments).head? ≠ some '/' := by
  cases segments with
  | nil => simp [List.intercalate]
  | cons s rest =>
    cases s with
    | nil => exact absurd rfl (hne _ List.mem_cons_self)
    | cons c cs =>
      have hc : c ≠ '/' := by
        rintro rfl
        exact h _ List.mem_cons_self List.mem_cons_self
      cases rest <;> simpa [List.intercalate, List.intersperse] using hc

theorem rootSlashes_ofSegments {k : Nat} (hk : k ≤ 2) {segments : List Segment}
    (h : ∀ s ∈ segments, '/' ∉ s) (hne : ∀ s ∈ segments, s ≠ []) :
    rootSlashes (ofSegments k segments) = k :=
  rootSlashes_replicate hk (head?_intercalate h hne)

theorem foldl_pieces_replicate (rooted : Bool) (k : Nat) (cs : List Char) (stack : List Segment) :
    (Text.pieces '/' (List.replicate k '/' ++ cs)).foldl (pushSegment rooted) stack
      = (Text.pieces '/' cs).foldl (pushSegment rooted) stack := by
  induction k with
  | zero => rfl
  | succ k ih =>
    rw [List.replicate_succ, List.cons_append, Text.pieces_cons_self, List.foldl_cons,
      pushSegment_nil, ih]

/-- The segments of a path that is made of settled ones. -/
theorem normalSegments_ofSegments {k : Nat} (hk : k ≤ 2) {segments : List Segment}
    (h : Settled (k != 0) segments.reverse) : normalSegments (ofSegments k segments) = segments := by
  have hslash : ∀ s ∈ segments, '/' ∉ s := fun s hs => h.no_slash s (List.mem_reverse.mpr hs)
  have hne : ∀ s ∈ segments, s ≠ [] := fun s hs => h.ne_nil s (List.mem_reverse.mpr hs)
  rw [normalSegments, rootSlashes_ofSegments hk hslash hne, ofSegments, foldl_pieces_replicate]
  cases segments with
  | nil => rfl
  | cons s rest =>
    rw [Text.pieces_intercalate hslash (List.cons_ne_nil _ _)]
    have := h.foldl_reverse
    rw [List.reverse_reverse] at this
    rw [this, List.reverse_reverse]

/-! ### Normal forms -/

/-- A path made of settled segments is normal, when it is not empty. -/
theorem normalizeChars_ofSegments {k : Nat} (hk : k ≤ 2) {segments : List Segment}
    (h : Settled (k != 0) segments.reverse) (hne : ofSegments k segments ≠ []) :
    normalizeChars (ofSegments k segments) = ofSegments k segments := by
  have hslash : ∀ s ∈ segments, '/' ∉ s := fun s hs => h.no_slash s (List.mem_reverse.mpr hs)
  have hnil : ∀ s ∈ segments, s ≠ [] := fun s hs => h.ne_nil s (List.mem_reverse.mpr hs)
  rw [normalizeChars, rootSlashes_ofSegments hk hslash hnil, normalSegments_ofSegments hk h]
  split
  next heq => exact absurd heq hne
  next => rfl

theorem ofSegments_eq_nil {k : Nat} {segments : List Segment} (hne : ∀ s ∈ segments, s ≠ []) :
    ofSegments k segments = [] ↔ k = 0 ∧ segments = [] := by
  rw [ofSegments, List.append_eq_nil_iff, List.replicate_eq_nil_iff]
  refine and_congr_right fun _ => ⟨fun h => ?_, fun h => by simp [h, List.intercalate]⟩
  cases segments with
  | nil => rfl
  | cons s rest =>
    have hs := hne s List.mem_cons_self
    cases rest <;> simp [List.intercalate, List.intersperse, hs] at h

/-- The normal form is that of the current directory, or it is made of the segments. -/
theorem normalizeChars_eq (cs : List Char) :
    (rootSlashes cs = 0 ∧ normalSegments cs = [] ∧ normalizeChars cs = ['.'])
      ∨ (ofSegments (rootSlashes cs) (normalSegments cs) ≠ []
          ∧ normalizeChars cs = ofSegments (rootSlashes cs) (normalSegments cs)) := by
  have hne : ∀ s ∈ normalSegments cs, s ≠ [] := fun s hs =>
    (settled_normalSegments cs).ne_nil s (List.mem_reverse.mpr hs)
  rw [normalizeChars.eq_def]
  split
  next hnil =>
    obtain ⟨hroot, hsegments⟩ := (ofSegments_eq_nil hne).mp hnil
    exact Or.inl ⟨hroot, hsegments, rfl⟩
  next path hpath => exact Or.inr ⟨fun h => hpath h, rfl⟩

/-- The normal form of a normal form is itself. -/
theorem normalizeChars_normalizeChars (cs : List Char) :
    normalizeChars (normalizeChars cs) = normalizeChars cs := by
  rcases normalizeChars_eq cs with ⟨-, -, h⟩ | ⟨hne, h⟩
  · rw [h]
    decide
  · rw [h]
    exact normalizeChars_ofSegments (rootSlashes_le cs) (settled_normalSegments cs) hne

theorem normalizeChars_ne_nil (cs : List Char) : normalizeChars cs ≠ [] := by
  rcases normalizeChars_eq cs with ⟨-, -, h⟩ | ⟨hne, h⟩
  · simp [h]
  · rwa [h]

theorem normalize_normalize (path : String) : normalize (normalize path) = normalize path := by
  simp [normalize, normalizeChars_normalizeChars]

/-! ### What is put below a path -/

theorem rootSlashes_appendPart (base : List Char) {part : List Char} (h : part.head? ≠ some '/') :
    rootSlashes (appendPart base part) = rootSlashes base := by
  rw [appendPart]
  split
  next hend =>
    match base with
    | [] => exact rootSlashes_eq_zero h
    | ['/'] => exact rootSlashes_replicate (k := 1) (by omega) h
    | ['/', '/'] => exact rootSlashes_replicate (k := 2) (by omega) h
    | '/' :: '/' :: c :: rest =>
      by_cases hc : c = '/' <;> simp [rootSlashes.eq_def, hc]
    | c :: d :: rest =>
      by_cases hc : c = '/'
      · by_cases hd : d = '/'
        · subst hc hd
          cases rest with
          | nil => exact rootSlashes_replicate (k := 2) (by omega) h
          | cons e rest => by_cases he : e = '/' <;> simp [rootSlashes.eq_def, he]
        · simp [rootSlashes.eq_def, hc, hd]
      · simp [rootSlashes.eq_def, hc]
    | [c] =>
      obtain rfl : c = '/' := by simpa using hend
      exact rootSlashes_replicate (k := 1) (by omega) h
  next hend =>
    simp only [Bool.or_eq_true, decide_eq_true_eq, not_or] at hend
    match base with
    | [] => exact absurd rfl hend.1
    | [c] =>
      have hc : c ≠ '/' := by simpa using hend.2
      simp [rootSlashes.eq_def, hc]
    | [c, d] =>
      have hd : d ≠ '/' := by simpa using hend.2
      by_cases hc : c = '/' <;> simp [rootSlashes.eq_def, hc, hd]
    | c :: d :: e :: rest =>
      by_cases hc : c = '/' <;> by_cases hd : d = '/' <;> by_cases he : e = '/' <;>
        simp [rootSlashes.eq_def, hc, hd, he]

/-- The segments of a part are pushed onto the stack of the base. -/
theorem foldl_pieces_appendPart (rooted : Bool) (base part : List Char) (stack : List Segment) :
    (Text.pieces '/' (appendPart base part)).foldl (pushSegment rooted) stack
      = (Text.pieces '/' part).foldl (pushSegment rooted)
          ((Text.pieces '/' base).foldl (pushSegment rooted) stack) := by
  rw [appendPart]
  split
  next hend =>
    simp only [Bool.or_eq_true, decide_eq_true_eq] at hend
    rcases hend with rfl | hend
    · simp [Text.pieces, Text.split, pushSegment_nil]
    · obtain ⟨front, rfl⟩ : ∃ front, base = front ++ ['/'] := by
        rw [List.getLast?_eq_some_iff] at hend
        exact hend
      rw [List.append_assoc, List.singleton_append, Text.pieces_append_sep,
        Text.pieces_append_sep, List.foldl_append, List.foldl_append]
      simp [Text.pieces, Text.split, pushSegment_nil]
  next => rw [Text.pieces_append_sep, List.foldl_append]

theorem normalSegments_appendPart (base : List Char) {part : List Char}
    (h : part.head? ≠ some '/') :
    normalSegments (appendPart base part)
      = ((Text.pieces '/' part).foldl (pushSegment (rootSlashes base != 0))
          (normalSegments base).reverse).reverse := by
  rw [normalSegments, rootSlashes_appendPart base h, foldl_pieces_appendPart, normalSegments,
    List.reverse_reverse]

/-- What decides a normal form: the slashes at the start and the segments. -/
theorem normalizeChars_congr {a b : List Char} (hr : rootSlashes a = rootSlashes b)
    (hs : normalSegments a = normalSegments b) : normalizeChars a = normalizeChars b := by
  rw [normalizeChars, normalizeChars, hr, hs]

theorem rootSlashes_normalizeChars (cs : List Char) :
    rootSlashes (normalizeChars cs) = rootSlashes cs := by
  have hsettled := settled_normalSegments cs
  rcases normalizeChars_eq cs with ⟨hroot, -, h⟩ | ⟨-, h⟩
  · rw [h, hroot]
    decide
  · rw [h]
    exact rootSlashes_ofSegments (rootSlashes_le cs)
      (fun s hs => hsettled.no_slash s (List.mem_reverse.mpr hs))
      fun s hs => hsettled.ne_nil s (List.mem_reverse.mpr hs)

theorem normalSegments_normalizeChars (cs : List Char) :
    normalSegments (normalizeChars cs) = normalSegments cs := by
  rcases normalizeChars_eq cs with ⟨-, hsegments, h⟩ | ⟨-, h⟩
  · rw [h, hsegments]
    decide
  · rw [h]
    exact normalSegments_ofSegments (rootSlashes_le cs) (settled_normalSegments cs)

/-- What is put below a path may be put below its normal form. -/
theorem normalizeChars_appendPart (base : List Char) {part : List Char}
    (h : part.head? ≠ some '/') :
    normalizeChars (appendPart (normalizeChars base) part)
      = normalizeChars (appendPart base part) := by
  refine normalizeChars_congr ?_ ?_
  · rw [rootSlashes_appendPart _ h, rootSlashes_appendPart _ h, rootSlashes_normalizeChars]
  · rw [normalSegments_appendPart _ h, normalSegments_appendPart _ h, normalSegments_normalizeChars,
      rootSlashes_normalizeChars]

/-- A slash at the end of a path does not change its normal form. -/
theorem normalizeChars_trailing (cs : List Char) :
    normalizeChars (appendPart cs []) = normalizeChars cs := by
  refine normalizeChars_congr (rootSlashes_appendPart cs (by simp)) ?_
  rw [normalSegments_appendPart cs (by simp)]
  simp [Text.pieces, Text.split, pushSegment_nil]

/-! ### Joins -/

theorem head?_stripLeading (c : Char) (cs : List Char) : (Text.stripLeading c cs).head? ≠ some c := by
  induction cs with
  | nil => simp [Text.stripLeading]
  | cons x rest ih =>
    by_cases hx : x = c
    · subst hx
      simpa [Text.stripLeading] using ih
    · simp [Text.stripLeading, hx]

theorem appendPart_nil {path : List Char} (h : path ≠ []) :
    appendPart path [] = if path.getLast? = some '/' then path else path ++ ['/'] := by
  simp [appendPart, h]

/-- A join is the normal form of a part put below a base, with the slash at the end of the part. -/
theorem joinChars_eq (base part : List Char) :
    let path := normalizeChars (appendPart base (Text.stripLeading '/' part))
    joinChars base [part]
      = if part.getLast? = some '/' then appendPart path [] else path := by
  intro path
  have hpath : path ≠ [] := normalizeChars_ne_nil _
  simp only [joinChars, List.map_cons, List.map_nil, List.foldl_cons, List.foldl_nil,
    List.getLast?_cons_cons, List.getLast?_singleton, Option.getD_some]
  change (if part.getLast? = some '/' && path.getLast? != some '/' then path ++ ['/'] else path) = _
  rw [appendPart_nil hpath]
  by_cases hpart : part.getLast? = some '/' <;> by_cases hlast : path.getLast? = some '/' <;>
    simp [hpart, hlast]

/-- A join is normal, up to a slash at its end. -/
theorem normalizeChars_joinChars (base part : List Char) :
    normalizeChars (joinChars base [part])
      = normalizeChars (appendPart base (Text.stripLeading '/' part)) := by
  rw [joinChars_eq]
  split
  · rw [normalizeChars_trailing, normalizeChars_normalizeChars]
  · exact normalizeChars_normalizeChars _

theorem toList_join (base part : String) :
    (join base part).toList = joinChars base.toList [part.toList] := by
  simp [join, joinAll]

theorem normalize_join (base part : String) :
    normalize (join base part)
      = String.ofList (normalizeChars (appendPart base.toList (Text.stripLeading '/' part.toList))) := by
  rw [normalize, toList_join, normalizeChars_joinChars]

end Path

end PackageLint
