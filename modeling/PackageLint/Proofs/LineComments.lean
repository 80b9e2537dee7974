import PackageLint.Source.ModuleSyntax

/-!
# What a line comment does to the code behind it

A line comment is no code, so one would expect that its text has no influence on the format that code
looks like. It has, for block comments are removed first, and the text is read for them without regard
to line comments.

## What goes wrong

There are two ways. A line comment can hold the opening of a block comment, as the pattern `src/*.js`
does. The next `*/` then closes it, and all code up to there is gone. And where the line comment starts
with `*`, its second slash opens a block comment by itself. When that is closed in the same line, the
mark of the line comment goes with it, and what is left of the line counts as code.

Nothing else goes wrong: where the mark stays, and every block comment that opens in the line is closed
in the line, the text has no influence, whatever follows. Where there is no `*/` at all, it has none
either.

## Main definitions

* `Source.Uncommented` — a text with all its block comments closed, and what is left of it
* `Source.CommentStays` — the texts of line comments that are a comment to the last character
* `Source.IsPlain` — texts without comments and strings

## Main results

* `Source.uncommented_or_open` — a text has all its block comments closed, or ends within one
* `Source.dropBlockComments_append` — a text with all closed does not change how the rest is read
* `Source.line_comment_silent_iff` — which line comments have no influence
-/

namespace PackageLint.Source

/-! ### Block comments -/

/-- A text whose block comments are all closed, and what is left of it without them. -/
inductive Uncommented : List Char → List Char → Prop
  | nil : Uncommented [] []
  | char {c : Char} {rest left : List Char} (hplain : ¬['/', '*'] <+: c :: rest)
      (h : Uncommented rest left) : Uncommented (c :: rest) (c :: left)
  | comment {body rest left : List Char} (hbody : ¬['*', '/'] <:+: body)
      (h : Uncommented rest left) :
      Uncommented ('/' :: '*' :: (body ++ '*' :: '/' :: rest)) left

variable {c : Char} {cs body front rest left x a b : List Char}

/-- A mark of two characters starts before another character, or not at all. -/
theorem mark_prefix_append {p q d : Char} (hd : d ≠ q) (l rest : List Char) :
    [p, q] <+: c :: (l ++ d :: rest) ↔ [p, q] <+: c :: l := by
  cases l <;> simp [List.cons_prefix_cons, hd.symm]

theorem infix_cons_of_ne (hc : c ≠ '*') : ['*', '/'] <:+: c :: cs ↔ ['*', '/'] <:+: cs := by
  rw [List.infix_cons_iff, List.cons_prefix_cons]
  exact or_iff_right fun h => hc h.1.symm

/-- A line feed is no part of a closing mark. -/
theorem not_closed_append (ha : ¬['*', '/'] <:+: a) (hb : ¬['*', '/'] <:+: b) :
    ¬['*', '/'] <:+: a ++ '\n' :: b := by
  induction a with
  | nil => rwa [List.nil_append, infix_cons_of_ne (by decide)]
  | cons c a ih =>
    rw [List.infix_cons_iff, not_or] at ha
    rw [List.cons_append, List.infix_cons_iff, mark_prefix_append (by decide), not_or]
    exact ⟨ha.1, ih ha.2⟩

theorem closingLength?_cons (h : ¬['*', '/'] <+: c :: rest) :
    closingLength? (c :: rest) = (closingLength? rest).map (· + 1) := by
  rw [closingLength?.eq_3]
  rintro tail rfl rfl
  exact h ⟨tail, rfl⟩

/-- The first closing mark ends a block comment. -/
theorem closingLength?_append (h : ¬['*', '/'] <:+: body) (rest : List Char) :
    closingLength? (body ++ '*' :: '/' :: rest) = some (body.length + 2) := by
  induction body with
  | nil => rfl
  | cons c body ih =>
    rw [List.infix_cons_iff, not_or] at h
    have hstart := h.1
    rw [← mark_prefix_append (d := '*') (by decide) body ('/' :: rest)] at hstart
    rw [List.cons_append, closingLength?_cons hstart, ih h.2]
    simp

theorem closingLength?_eq_none (h : ¬['*', '/'] <:+: cs) : closingLength? cs = none := by
  induction cs with
  | nil => rfl
  | cons c rest ih =>
    rw [List.infix_cons_iff, not_or] at h
    rw [closingLength?_cons h.1, ih h.2, Option.map_none]

theorem exists_first_closing (h : ['*', '/'] <:+: cs) :
    ∃ body rest, cs = body ++ '*' :: '/' :: rest ∧ ¬['*', '/'] <:+: body := by
  induction cs with
  | nil => simp at h
  | cons c cs ih =>
    by_cases hstart : ['*', '/'] <+: c :: cs
    · obtain ⟨rest, hrest⟩ := hstart
      exact ⟨[], rest, hrest.symm, by simp⟩
    · obtain ⟨body, rest, rfl, hbody⟩ := ih ((List.infix_cons_iff.mp h).resolve_left hstart)
      refine ⟨c :: body, rest, rfl, ?_⟩
      rw [List.infix_cons_iff, not_or]
      refine ⟨fun hmark => hstart (hmark.trans ?_), hbody⟩
      exact ⟨'*' :: '/' :: rest, rfl⟩

theorem dropBlockCommentsFrom_eq_drop (n : Nat) (cs : List Char) :
    dropBlockCommentsFrom n cs = dropBlockComments (cs.drop n) := by
  induction cs generalizing n with
  | nil => cases n <;> rfl
  | cons c rest ih =>
    cases n with
    | zero => rfl
    | succ n => exact ih n

theorem dropBlockComments_char (h : ¬['/', '*'] <+: c :: rest) :
    dropBlockComments (c :: rest) = c :: dropBlockComments rest := by
  refine dropBlockCommentsFrom.eq_4 c rest ?_
  rintro body rfl rfl
  exact h ⟨body, rfl⟩

theorem dropBlockComments_comment (h : ¬['*', '/'] <:+: body) (rest : List Char) :
    dropBlockComments ('/' :: '*' :: (body ++ '*' :: '/' :: rest)) = dropBlockComments rest := by
  rw [dropBlockComments, dropBlockCommentsFrom]
  simp only [closingLength?_append h, dropBlockCommentsFrom_eq_drop]
  congr 1
  simp [List.drop_append]

theorem dropBlockComments_open (h : ¬['*', '/'] <:+: body) :
    dropBlockComments ('/' :: '*' :: body) = '/' :: dropBlockComments ('*' :: body) := by
  rw [dropBlockComments, dropBlockCommentsFrom]
  simp only [closingLength?_eq_none h]
  rfl

theorem dropBlockComments_of_not_closed (h : ¬['*', '/'] <:+: cs) : dropBlockComments cs = cs := by
  induction cs with
  | nil => rfl
  | cons c rest ih =>
    rw [List.infix_cons_iff, not_or] at h
    by_cases hopen : ['/', '*'] <+: c :: rest
    · obtain ⟨body, hbody⟩ := hopen
      obtain ⟨rfl, rfl⟩ := List.cons.inj hbody
      have hinner : ¬['*', '/'] <:+: body := fun hbody => h.2 (List.infix_cons hbody)
      exact (dropBlockComments_open hinner).trans (congrArg _ (ih h.2))
    · rw [dropBlockComments_char hopen, ih h.2]

/-- A text with all block comments closed does not change how what follows is read. -/
theorem dropBlockComments_append (h : Uncommented x left) (hc : c ≠ '*') (rest : List Char) :
    dropBlockComments (x ++ c :: rest) = left ++ dropBlockComments (c :: rest) := by
  induction h with
  | nil => rfl
  | @char d x left hplain _ ih =>
    rw [← mark_prefix_append hc x rest] at hplain
    rw [List.cons_append, dropBlockComments_char hplain, ih, List.cons_append]
  | @comment body x left hbody _ ih =>
    have hsplit : '/' :: '*' :: (body ++ '*' :: '/' :: x) ++ c :: rest
        = '/' :: '*' :: (body ++ '*' :: '/' :: (x ++ c :: rest)) := by simp
    rw [hsplit, dropBlockComments_comment hbody, ih]

/-- What is left of a text are characters of it. -/
theorem Uncommented.subset (h : Uncommented x left) : left ⊆ x := by
  induction h with
  | nil => exact List.Subset.refl _
  | char _ _ ih => exact List.cons_subset_cons _ ih
  | comment _ _ ih =>
    intro c hc
    simp [ih hc]

/-- A text has all its block comments closed, or ends within one that is not. -/
theorem uncommented_or_open (x : List Char) :
    (∃ left, Uncommented x left)
      ∨ ∃ front left body, x = front ++ '/' :: '*' :: body ∧ Uncommented front left
        ∧ ¬['*', '/'] <:+: body := by
  induction hlength : x.length using Nat.strongRecOn generalizing x with
  | ind n ih =>
    cases x with
    | nil => exact Or.inl ⟨[], .nil⟩
    | cons c rest =>
      by_cases hopen : ['/', '*'] <+: c :: rest
      · obtain ⟨body, hbody⟩ := hopen
        by_cases hclosed : ['*', '/'] <:+: body
        · obtain ⟨inner, after, rfl, hinner⟩ := exists_first_closing hclosed
          have hlt : after.length < n := by
            rw [← hlength, ← hbody]
            simp
            omega
          rcases ih _ hlt after rfl with ⟨left, hleft⟩ | ⟨front, left, body, rfl, hfront, hnot⟩
          · exact Or.inl ⟨left, hbody ▸ .comment hinner hleft⟩
          · refine Or.inr ⟨'/' :: '*' :: (inner ++ '*' :: '/' :: front), left, body, ?_,
              .comment hinner hfront, hnot⟩
            rw [← hbody]
            simp
        · exact Or.inr ⟨[], [], body, hbody.symm, .nil, hclosed⟩
      · have hlt : rest.length < n := by rw [← hlength]; simp
        rcases ih _ hlt rest rfl with ⟨left, hleft⟩ | ⟨front, left, body, rfl, hfront, hnot⟩
        · exact Or.inl ⟨c :: left, .char hopen hleft⟩
        · refine Or.inr ⟨c :: front, c :: left, body, rfl, .char (fun hmark => hopen ?_) hfront,
            hnot⟩
          exact hmark.trans ⟨'/' :: '*' :: body, rfl⟩

/-! ### Line comments -/

/-- A text without comments and strings, behind which a line comment may start. -/
structure IsPlain (a : List Char) : Prop where
  no_block : ¬['/', '*'] <:+: a
  no_line : ¬['/', '/'] <:+: a
  no_quote : ∀ c ∈ a, c ≠ '\'' ∧ c ≠ '"' ∧ c ≠ '\x60'
  getLast?_ne : a.getLast? ≠ some '/'

/-- Whether a text is a comment to the last character behind the mark of a line comment: the mark stays,
and every block comment that opens in the text is closed in it. The second slash of the mark takes part,
for it can open one. -/
def CommentStays (x : List Char) : Prop := ∃ left, Uncommented ('/' :: x) ('/' :: left)

theorem uncommented_self (h : ¬['/', '*'] <:+: x) : Uncommented x x := by
  induction x with
  | nil => exact .nil
  | cons c x ih =>
    rw [List.infix_cons_iff, not_or] at h
    exact .char h.1 (ih h.2)

theorem dropLineComments_mark (rest : List Char) :
    dropLineComments ('/' :: '/' :: rest) = dropLineCommentsFrom true rest := by
  simp [dropLineComments, dropLineCommentsFrom]

theorem dropLineComments_char (h : ¬['/', '/'] <+: c :: rest) :
    dropLineComments (c :: rest) = c :: dropLineComments rest := by
  rw [dropLineComments, dropLineCommentsFrom, if_neg, dropLineComments]
  simp only [Bool.and_eq_true, decide_eq_true_eq, not_and]
  rintro rfl hhead
  obtain ⟨tail, rfl⟩ := List.head?_eq_some_iff.mp hhead
  exact h ⟨tail, rfl⟩

theorem dropLineCommentsFrom_true (hx : '\n' ∉ x) (rest : List Char) :
    dropLineCommentsFrom true (x ++ '\n' :: rest) = '\n' :: dropLineComments rest := by
  induction x with
  | nil => rfl
  | cons c x ih =>
    obtain ⟨hc, hx⟩ := List.ne_and_not_mem_of_not_mem_cons hx
    rw [List.cons_append, dropLineCommentsFrom, if_neg hc.symm, ih hx]

/-- What is plain stays in front of what follows. -/
theorem dropLineComments_append (hline : ¬['/', '/'] <:+: a) (hlast : a.getLast? ≠ some '/')
    (rest : List Char) : dropLineComments (a ++ rest) = a ++ dropLineComments rest := by
  induction a with
  | nil => rfl
  | cons c a ih =>
    rw [List.infix_cons_iff, not_or] at hline
    have hstart : ¬['/', '/'] <+: c :: (a ++ rest) := by
      cases a with
      | nil =>
        have hc : '/' ≠ c := by simpa [eq_comm] using hlast
        exact fun hmark => hc (List.cons_prefix_cons.mp hmark).1
      | cons d a => simpa [List.cons_prefix_cons] using hline.1
    rw [List.cons_append, dropLineComments_char hstart, List.cons_append, ih hline.2]
    cases a with
    | nil => simp
    | cons d a => simpa [List.getLast?_cons_cons] using hlast

/-- Behind plain text, the mark of a line comment starts what follows. -/
theorem stripCommentChars_append (ha : IsPlain a) (x : List Char) :
    stripCommentChars (a ++ '/' :: '/' :: x)
      = a ++ dropLineComments ('/' :: dropBlockComments ('/' :: x)) := by
  rw [stripCommentChars, dropBlockComments_append (uncommented_self ha.no_block) (by decide),
    dropLineComments_append ha.no_line ha.getLast?_ne,
    dropBlockComments_char (by simp [List.cons_prefix_cons])]

/-- Where the block comments are removed from a line comment and the mark stays, with what follows, the
line comment leaves its line feed only. -/
theorem stripCommentChars_of_mark (ha : IsPlain a) (hleft : '\n' ∉ left)
    (hx : dropBlockComments ('/' :: (x ++ '\n' :: b))
      = '/' :: (left ++ '\n' :: dropBlockComments b)) :
    stripCommentChars (a ++ '/' :: '/' :: (x ++ '\n' :: b))
      = a ++ '\n' :: stripCommentChars b := by
  rw [stripCommentChars_append ha, hx, dropLineComments_mark, dropLineCommentsFrom_true hleft,
    stripCommentChars]

/-- A line comment that is a comment to its end leaves its line feed only, and so does every line comment
where nothing could close a block comment. -/
theorem stripCommentChars_comment (ha : IsPlain a) (hx : '\n' ∉ x)
    (h : CommentStays x ∨ ¬['*', '/'] <:+: x ++ '\n' :: b) :
    stripCommentChars (a ++ '/' :: '/' :: (x ++ '\n' :: b))
      = a ++ '\n' :: stripCommentChars b := by
  rcases h with ⟨left, hleft⟩ | hnone
  · have hfeed : '\n' ∉ left := by
      intro hmem
      have hmem' := hleft.subset (List.mem_cons_of_mem _ hmem)
      simp [hx] at hmem'
    refine stripCommentChars_of_mark ha hfeed ?_
    have happend := dropBlockComments_append hleft (c := '\n') (by decide) b
    rw [dropBlockComments_char (by simp [List.cons_prefix_cons])] at happend
    exact happend
  · refine stripCommentChars_of_mark ha hx ?_
    have hb : ¬['*', '/'] <:+: b := fun hb =>
      hnone (hb.trans (List.suffix_append_of_suffix (List.suffix_cons _ _)).isInfix)
    rw [dropBlockComments_of_not_closed hb, dropBlockComments_of_not_closed]
    rwa [infix_cons_of_ne (by decide)]

/-! ### Line comments that end as code -/

theorem isPlain_nil : IsPlain [] := ⟨by simp, by simp, by simp, by simp⟩

theorem isPlain_empty : IsPlain "".toList := String.toList_empty ▸ isPlain_nil

theorem isPlain_export : IsPlain "export".toList := by
  constructor <;> simp [List.infix_cons_iff]

/-- A block comment that opens in a line comment goes on to the next closing mark. -/
theorem stripCommentChars_open (hx : '/' :: x = front ++ '/' :: '*' :: body)
    (hfront : Uncommented front left) (hbody : ¬['*', '/'] <:+: body) (hb : ¬['*', '/'] <:+: b)
    (rest : List Char) :
    stripCommentChars ('/' :: '/' :: (x ++ '\n' :: (b ++ '*' :: '/' :: rest)))
      = dropLineComments ('/' :: (left ++ dropBlockComments rest)) := by
  have hinner : ¬['*', '/'] <:+: body ++ '\n' :: b := not_closed_append hbody hb
  have hwhole : '/' :: (x ++ '\n' :: (b ++ '*' :: '/' :: rest))
      = front ++ '/' :: '*' :: ((body ++ '\n' :: b) ++ '*' :: '/' :: rest) := by
    rw [← List.cons_append, hx]
    simp
  have hstrip := stripCommentChars_append isPlain_nil (x ++ '\n' :: (b ++ '*' :: '/' :: rest))
  rw [List.nil_append, List.nil_append] at hstrip
  rw [hstrip, hwhole, dropBlockComments_append hfront (by decide), dropBlockComments_comment hinner]

/-- A line comment whose mark goes with a block comment leaves its first slash, and what is behind the
block comment. -/
theorem stripCommentChars_lost (ha : IsPlain a) (hleft : Uncommented ('/' :: x) left)
    (hmark : left.head? ≠ some '/') (b : List Char) :
    stripCommentChars (a ++ '/' :: '/' :: (x ++ '\n' :: b))
      = a ++ '/' :: dropLineComments (left ++ '\n' :: dropBlockComments b) := by
  have happend := dropBlockComments_append hleft (c := '\n') (by decide) b
  have hfeed : dropBlockComments ('\n' :: b) = '\n' :: dropBlockComments b :=
    dropBlockComments_char (by simp [List.cons_prefix_cons])
  rw [stripCommentChars_append ha, ← List.cons_append, happend, hfeed, dropLineComments_char]
  cases left with
  | nil => simp [List.cons_prefix_cons]
  | cons c left => simpa [List.cons_prefix_cons, eq_comm] using hmark

/-! ### The format that code looks like -/

theorem classify_eq (code : String) :
    classify code = formatOf (showsEsmChars (stripCommentChars code.toList))
      (showsCjsChars (stripCommentChars code.toList)) := rfl

theorem toList_commented (a x b : String) :
    (a ++ "//" ++ x ++ "\n" ++ b).toList
      = a.toList ++ '/' :: '/' :: (x.toList ++ '\n' :: b.toList) := by
  simp [String.toList_append]

theorem afterSomeBreak_append {accepts : List Char → Bool} {word : List Char}
    (h : ∀ c ∈ word, isBreak c = false) (rest : List Char) :
    afterSomeBreak accepts (word ++ rest) = afterSomeBreak accepts rest := by
  induction word with
  | nil => rfl
  | cons c word ih =>
    obtain ⟨hc, hword⟩ := List.forall_mem_cons.mp h
    rw [List.cons_append, afterSomeBreak, hc, ih hword, Bool.false_and, Bool.false_or]

theorem isBreak_export : ∀ c ∈ "export".toList, isBreak c = false := by
  simp [isBreak, Text.isBlank, Text.blankRanges, Text.Ranges.holds]

/-- Directly before a slash, the word `export` shows no module syntax. -/
theorem shows_export_slash (rest : List Char) :
    showsEsmChars ("export".toList ++ '/' :: rest) = showsEsmChars ('/' :: rest)
      ∧ showsCjsChars ("export".toList ++ '/' :: rest) = showsCjsChars ('/' :: rest) := by
  have hesm : esmStatement ("export".toList ++ '/' :: rest) = esmStatement ('/' :: rest) := by
    simp [esmStatement, thenMatches, Text.dropStart?, exportRest, headIs, exportedWords,
      Text.skipBlanks, Text.isBlank, Text.blankRanges, Text.Ranges.holds, List.isPrefixOf]
  have hcjs : cjsStatement ("export".toList ++ '/' :: rest) = cjsStatement ('/' :: rest) := by
    simp [cjsStatement, thenMatches, Text.dropStart?, definingFunctions]
  simp only [showsEsmChars, showsCjsChars, atSomeStatement, hesm, hcjs,
    afterSomeBreak_append isBreak_export, and_self]

/-- A line comment without influence is a comment to its end. Otherwise code that is in the comment, or
behind it, is not told from code in another format. -/
theorem commentStays_of_silent {x : String}
    (h : ∀ a b : String, IsPlain a.toList →
      classify (a ++ "//" ++ x ++ "\n" ++ b) = classify (a ++ "//" ++ "\n" ++ b)) :
    CommentStays x.toList := by
  rcases uncommented_or_open ('/' :: x.toList) with
    ⟨left, hleft⟩ | ⟨front, left, body, hx, hfront, hbody⟩
  · by_cases hmark : left.head? = some '/'
    · obtain ⟨rest, rfl⟩ := List.head?_eq_some_iff.mp hmark
      exact ⟨rest, hleft⟩
    -- the mark is lost: whether `export` is in front of it is not told any more
    have hplain := h "" "default" isPlain_empty
    have hexport := h "export" "default" isPlain_export
    rw [classify_eq, toList_commented, stripCommentChars_lost isPlain_empty hleft hmark,
      String.toList_empty, List.nil_append] at hplain
    rw [classify_eq, toList_commented, stripCommentChars_lost isPlain_export hleft hmark,
      (shows_export_slash _).1, (shows_export_slash _).2] at hexport
    have hunknown : classify ("" ++ "//" ++ "\n" ++ "default") = .unknown := by decide +kernel
    have hesm : classify ("export" ++ "//" ++ "\n" ++ "default") = .esm := by decide +kernel
    rw [hunknown] at hplain
    rw [hesm, hplain] at hexport
    exact absurd hexport (by decide)
  · -- a block comment is open: what is in front of its end is not told any more
    have hstrip : ∀ b : String, ¬['*', '/'] <:+: b.toList →
        stripCommentChars ("" ++ "//" ++ x ++ "\n" ++ (b ++ "*/")).toList
          = dropLineComments ('/' :: left) := by
      intro b hb
      have hopen := stripCommentChars_open hx hfront hbody hb []
      have hnil : dropBlockComments [] = [] := rfl
      have hclosing : "*/".toList = ['*', '/'] := by simp
      rw [toList_commented, String.toList_append, String.toList_empty, List.nil_append, hclosing,
        hopen, hnil, List.append_nil]
    have hnone := h "" ("" ++ "*/") isPlain_empty
    have hexport := h "" ("export default " ++ "*/") isPlain_empty
    rw [classify_eq, hstrip "" (by simp)] at hnone
    rw [classify_eq, hstrip "export default " (by simp [List.infix_cons_iff])] at hexport
    have hunknown : classify ("" ++ "//" ++ "\n" ++ ("" ++ "*/")) = .unknown := by decide +kernel
    have hesm : classify ("" ++ "//" ++ "\n" ++ ("export default " ++ "*/")) = .esm := by decide +kernel
    rw [hunknown] at hnone
    rw [hesm, hnone] at hexport
    exact absurd hexport (by decide)

/-- The text of a line comment does not change what is left of the code around it, when it is a comment
to its end or when no `*/` comes in it or behind it. For the format that code looks like to be the same
with and without the text, whatever the code is, the former is needed as well: texts that hold the
opening of a block comment, as file patterns do, or that take the mark away by starting with a star
hide code, or show as code. -/
theorem line_comment_silent_iff {x : String} (hx : '\n' ∉ x.toList) :
    (∀ a b : String, IsPlain a.toList →
      CommentStays x.toList ∨ ¬['*', '/'] <:+: (x ++ "\n" ++ b).toList →
        stripComments (a ++ "//" ++ x ++ "\n" ++ b) = stripComments (a ++ "//" ++ "\n" ++ b))
      ∧ ((∀ a b : String, IsPlain a.toList →
          classify (a ++ "//" ++ x ++ "\n" ++ b) = classify (a ++ "//" ++ "\n" ++ b))
        ↔ CommentStays x.toList) := by
  have hslash : ¬['/', '*'] <:+: ['/'] := by simp [List.infix_cons_iff]
  have hempty : CommentStays [] := ⟨[], uncommented_self hslash⟩
  have hstrip : ∀ a b : String, IsPlain a.toList →
      CommentStays x.toList ∨ ¬['*', '/'] <:+: (x ++ "\n" ++ b).toList →
      stripCommentChars (a ++ "//" ++ x ++ "\n" ++ b).toList
        = stripCommentChars (a ++ "//" ++ "\n" ++ b).toList := by
    intro a b ha h
    have hbare := toList_commented a "" b
    rw [String.append_empty, String.toList_empty] at hbare
    rw [toList_commented, hbare, stripCommentChars_comment ha hx,
      stripCommentChars_comment ha (by simp) (Or.inl hempty)]
    simpa [String.toList_append] using h
  refine ⟨fun a b ha h => congrArg String.ofList (hstrip a b ha h), commentStays_of_silent, ?_⟩
  intro hstays a b ha
  rw [classify_eq, classify_eq, hstrip a b ha (Or.inl hstays)]

/-- A file pattern in a comment opens a block comment, and a pattern further down closes it: the import
between the two goes with it. -/
theorem globbed_comment_hides_import :
    ¬CommentStays " src/*.js".toList
      ∧ classify "// src/*.js\nimport a from 'a'\n// lib/*/b.js" = .unknown
      ∧ classify "//\nimport a from 'a'\n// lib/*/b.js" = .esm := by
  have hhidden : classify "// src/*.js\nimport a from 'a'\n// lib/*/b.js" = .unknown := by decide +kernel
  have hshown : classify "//\nimport a from 'a'\n// lib/*/b.js" = .esm := by decide +kernel
  refine ⟨fun hstays => ?_, hhidden, hshown⟩
  have hsilent := (line_comment_silent_iff (x := " src/*.js") (by decide)).2.mpr hstays ""
    "import a from 'a'\n// lib/*/b.js" isPlain_empty
  have hsame : classify "// src/*.js\nimport a from 'a'\n// lib/*/b.js"
      = classify "//\nimport a from 'a'\n// lib/*/b.js" := by
    simpa using hsilent
  rw [hhidden, hshown] at hsame
  exact absurd hsame (by decide)

-- The mark of this comment goes with the block comment that its second slash opens.
example : classify "//* once was */ import a from 'a'\n" = .esm := by decide +kernel

end PackageLint.Source
