import PackageLint.Proofs.Decompositions
import PackageLint.Source.ModuleSyntax

/-!
# The languages of module statements

Which syntax a text shows is found by recognisers that go through it once and never take a step back.
What they look for is told by ways to split the text: into what comes before a statement and the
statement itself, and that again into words, runs of blanks and the rest. The two could part where a
step is greedy. The run of names after `import` takes in the `from` that should end it, for letters
are among the characters of the run, so `from` is looked for within the longest run and not behind it.
A run of blanks may be taken whole, since nothing that has to follow one begins with a blank.

## Main definitions

* `Source.MayBegin`, `Source.Begins` — where a statement may begin, and that some statement begins there
* `Source.EsmStatement`, `Source.CjsStatement` — the forms of statements of either module system

## Main results

* `Source.atSomeStatement_iff` — the search finds a statement exactly where some way to split has one
* `Source.esmStatement_iff`, `Source.cjsStatement_iff` — the recognisers accept exactly their forms
* `Source.shows_exact` — the syntax that a text shows
-/

namespace PackageLint

/-! ### Runs and words -/

namespace Text

/-- What follows the leading blanks has a property just if the text can be split into blanks and a
rest with that property, as long as nothing with the property begins with a blank. -/
theorem skipBlanks_iff {P : List Char → Prop} (hP : ∀ c rest, P (c :: rest) → isBlank c = false)
    {cs : List Char} :
    P (skipBlanks cs)
      ↔ ∃ blanks rest, (∀ c ∈ blanks, isBlank c = true) ∧ cs = blanks ++ rest ∧ P rest := by
  constructor
  · intro h
    exact ⟨cs.takeWhile isBlank, skipBlanks cs, fun _ hc => List.mem_takeWhile_imp hc,
      List.takeWhile_append_dropWhile.symm, h⟩
  · rintro ⟨blanks, rest, hblanks, rfl, h⟩
    have hrest : rest.dropWhile isBlank = rest := by
      cases rest with
      | nil => rfl
      | cons c rest => simp [hP c rest h]
    rwa [skipBlanks, List.dropWhile_append_of_pos hblanks, hrest]

end Text

namespace Source

open Text

variable {accepts : List Char → Bool} {cs : List Char}

/-! ### Where statements begin -/

/-- After this a statement may begin: after nothing, a line feed, a blank or a semicolon. -/
def MayBegin (before : List Char) : Prop :=
  before = [] ∨ ∃ c, before.getLast? = some c ∧ (c = '\n' ∨ isBlank c = true ∨ c = ';')

/-- Somewhere in a text, where a statement may begin, the rest of it has a form. -/
def Begins (form : List Char → Prop) (cs : List Char) : Prop :=
  ∃ before rest, cs = before ++ rest ∧ MayBegin before ∧ form rest

theorem begins_congr {form form' : List Char → Prop} (h : ∀ cs, form cs ↔ form' cs) :
    Begins form cs ↔ Begins form' cs := by
  simp only [Begins, h]

theorem isBreak_iff {c : Char} : isBreak c = true ↔ c = '\n' ∨ isBlank c = true ∨ c = ';' := by
  have hline : c = '\n' → isBlank c = true := by
    rintro rfl
    decide
  simp only [isBreak, Bool.or_eq_true, decide_eq_true_eq]
  tauto

theorem afterSomeBreak_iff :
    afterSomeBreak accepts cs = true
      ↔ ∃ before c rest, cs = before ++ c :: rest ∧ isBreak c = true ∧ accepts rest = true := by
  induction cs with
  | nil => simp [afterSomeBreak]
  | cons x cs ih =>
    rw [afterSomeBreak, Bool.or_eq_true, Bool.and_eq_true, ih]
    constructor
    · rintro (⟨hx, haccepts⟩ | ⟨before, c, rest, rfl, hc, haccepts⟩)
      · exact ⟨[], x, cs, rfl, hx, haccepts⟩
      · exact ⟨x :: before, c, rest, rfl, hc, haccepts⟩
    · rintro ⟨before, c, rest, heq, hc, haccepts⟩
      cases before with
      | nil =>
        obtain ⟨rfl, rfl⟩ := List.cons_eq_cons.mp heq
        exact Or.inl ⟨hc, haccepts⟩
      | cons y before =>
        obtain ⟨rfl, rfl⟩ := List.cons_eq_cons.mp heq
        exact Or.inr ⟨before, c, rest, rfl, hc, haccepts⟩

/-- The search accepts just the texts in which something accepted begins. -/
theorem atSomeStatement_iff :
    atSomeStatement accepts cs = true ↔ Begins (fun rest => accepts rest = true) cs := by
  rw [atSomeStatement, Bool.or_eq_true, afterSomeBreak_iff]
  constructor
  · rintro (h | ⟨before, c, rest, rfl, hc, h⟩)
    · exact ⟨[], cs, rfl, Or.inl rfl, h⟩
    · exact ⟨before ++ [c], rest, by simp, Or.inr ⟨c, by simp, isBreak_iff.mp hc⟩, h⟩
  · rintro ⟨before, rest, rfl, rfl | ⟨c, hlast, hc⟩, h⟩
    · exact Or.inl h
    · obtain ⟨front, rfl⟩ := List.getLast?_eq_some_iff.mp hlast
      exact Or.inr ⟨front, c, rest, by simp, isBreak_iff.mpr hc, h⟩

/-! ### The recognisers of parts -/

/-- No word goes on: what comes next is not a word character. -/
def WordEnds (rest : List Char) : Prop := ∀ c ∈ rest.head?, isWord c = false

/-- The characters between `import` and `from`: those of words, commas, braces, stars and blanks. -/
def IsBinding (c : Char) : Prop :=
  isWord c = true ∨ c ∈ [',', '\x7b', '\x7d', '*'] ∨ isBlank c = true

theorem wordEnds_iff : wordEnds cs = true ↔ WordEnds cs := by
  cases cs <;> simp [wordEnds, WordEnds]

theorem isBindingChar_iff {c : Char} : isBindingChar c = true ↔ IsBinding c := by
  simp only [isBindingChar, IsBinding, Bool.or_eq_true, decide_eq_true_eq, List.mem_cons,
    List.not_mem_nil, or_false]
  tauto

theorem thenMatches_iff {start : String} :
    thenMatches start accepts cs = true
      ↔ ∃ rest, cs = start.toList ++ rest ∧ accepts rest = true := by
  rw [thenMatches]
  split
  next rest hrest => simp [Text.dropStart?_eq_some_iff.mp hrest]
  next hnone =>
    refine iff_of_false Bool.false_ne_true ?_
    rintro ⟨rest, heq, -⟩
    simp [Text.dropStart?_eq_some_iff.mpr heq] at hnone

theorem headIs_iff {p : Char → Bool} :
    headIs p cs = true ↔ ∃ c rest, cs = c :: rest ∧ p c = true := by
  cases cs <;> simp [headIs]

/-- A character of a class, none of which is a blank, comes next after blanks. -/
theorem headIs_skipBlanks_iff {p : Char → Bool} (hp : ∀ c, p c = true → isBlank c = false) :
    headIs p (skipBlanks cs) = true
      ↔ ∃ blanks c rest, (∀ b ∈ blanks, isBlank b = true) ∧ p c = true
          ∧ cs = blanks ++ c :: rest := by
  rw [skipBlanks_iff (P := fun cs => headIs p cs = true) fun c rest h => hp c (by simpa [headIs] using h)]
  simp only [headIs_iff]
  constructor
  · rintro ⟨blanks, -, hblanks, rfl, c, rest, rfl, hc⟩
    exact ⟨blanks, c, rest, hblanks, hc, rfl⟩
  · rintro ⟨blanks, c, rest, hblanks, hc, rfl⟩
    exact ⟨blanks, c :: rest, hblanks, rfl, c, rest, rfl, hc⟩

/-- A text that does not begin with a blank comes next after blanks. -/
theorem skipBlanks_eq_append_iff {start : List Char}
    (hstart : ∃ x, start.head? = some x ∧ isBlank x = false) {P : List Char → Prop} :
    (∃ rest, skipBlanks cs = start ++ rest ∧ P rest)
      ↔ ∃ blanks rest, (∀ b ∈ blanks, isBlank b = true) ∧ cs = blanks ++ (start ++ rest)
          ∧ P rest := by
  obtain ⟨x, hhead, hx⟩ := hstart
  obtain ⟨start, rfl⟩ := List.head?_eq_some_iff.mp hhead
  rw [skipBlanks_iff (P := fun cs => ∃ rest, cs = x :: start ++ rest ∧ P rest)]
  · constructor
    · rintro ⟨blanks, -, hblanks, rfl, rest, rfl, h⟩
      exact ⟨blanks, rest, hblanks, rfl, h⟩
    · rintro ⟨blanks, rest, hblanks, rfl, h⟩
      exact ⟨blanks, x :: start ++ rest, hblanks, rfl, rest, rfl, h⟩
  · rintro c cs ⟨rest, heq, -⟩
    rwa [(List.cons_eq_cons.mp heq).1]

/-- Something that starts with no blank comes next after the blanks just if it follows some blanks. -/
theorem prefix_skipBlanks_iff {start : List Char}
    (hstart : ∃ x, start.head? = some x ∧ isBlank x = false) :
    start <+: skipBlanks cs
      ↔ ∃ blanks rest, (∀ b ∈ blanks, isBlank b = true) ∧ cs = blanks ++ (start ++ rest) := by
  have h := @skipBlanks_eq_append_iff cs start hstart fun _ => True
  simp only [and_true] at h
  rw [← h]
  exact exists_congr fun _ => eq_comm

/-- `from` lies in the longest run just if it follows some run: its letters may be part of one. -/
theorem occursIn_from_iff :
    occursIn "from".toList (cs.takeWhile isBindingChar) = true
      ↔ ∃ names rest, (∀ c ∈ names, IsBinding c) ∧ cs = names ++ "from".toList ++ rest := by
  rw [occursIn_iff]
  constructor
  · rintro ⟨names, more, heq⟩
    refine ⟨names, more ++ cs.dropWhile isBindingChar, fun c hc => ?_, ?_⟩
    · have hmem : c ∈ cs.takeWhile isBindingChar := by
        rw [← heq]
        simp [hc]
      exact isBindingChar_iff.mp (List.mem_takeWhile_imp hmem)
    · rw [← List.append_assoc, heq, List.takeWhile_append_dropWhile]
  · rintro ⟨names, rest, hnames, rfl⟩
    have hfrom : ∀ c ∈ "from".toList, isBindingChar c = true := by
      simp [isBindingChar, isWord, isAsciiLetter]
    have hall : ∀ c ∈ names ++ "from".toList, isBindingChar c = true := by
      intro c hc
      rcases List.mem_append.mp hc with hc | hc
      · exact isBindingChar_iff.mpr (hnames c hc)
      · exact hfrom c hc
    rw [List.takeWhile_append_of_pos hall]
    exact ⟨names, rest.takeWhile isBindingChar, rfl⟩

/-! ### The forms of statements -/

/-- The forms of `import` and `export` statements. -/
inductive EsmStatement : List Char → Prop
  | importFrom {names rest : List Char} (h : ∀ c ∈ names, IsBinding c) :
      EsmStatement ("import".toList ++ (names ++ "from".toList ++ rest))
  | importOf {blanks rest : List Char} {c : Char} (hblanks : ∀ b ∈ blanks, isBlank b = true)
      (hc : c ∈ ['\'', '"', '*', '\x7b']) :
      EsmStatement ("import".toList ++ (blanks ++ c :: rest))
  | importMeta {rest : List Char} (hends : WordEnds rest) :
      EsmStatement ("import".toList ++ (".meta".toList ++ rest))
  | exportOf {blanks rest : List Char} {c : Char} (hblanks : ∀ b ∈ blanks, isBlank b = true)
      (hc : c ∈ ['*', '\x7b']) (hends : WordEnds (blanks ++ c :: rest)) :
      EsmStatement ("export".toList ++ (blanks ++ c :: rest))
  | exportWord {blanks rest : List Char} {word : String}
      (hblanks : ∀ b ∈ blanks, isBlank b = true)
      (hword : word ∈ ["default", "type", "function", "const", "var", "let", "async function"])
      (hends : WordEnds (blanks ++ (word.toList ++ rest))) :
      EsmStatement ("export".toList ++ (blanks ++ (word.toList ++ rest)))

/-- The forms of statements that use `module`, `exports`, `require` or `global`. -/
inductive CjsStatement : List Char → Prop
  | moduleExports {c : Char} {rest : List Char} (hc : c ≠ '\n') (hends : WordEnds rest) :
      CjsStatement ("module".toList ++ c :: ("exports".toList ++ rest))
  | member {object : String} {c : Char} {rest : List Char}
      (hobject : object ∈ ["exports.", "global."]) (hc : isWord c = true) :
      CjsStatement (object.toList ++ c :: rest)
  | require {blanks rest : List Char} (hblanks : ∀ b ∈ blanks, isBlank b = true) :
      CjsStatement ("require".toList ++ (blanks ++ '(' :: rest))
  | definition {name : String} {blanks blanks' rest : List Char}
      (hname : name ∈ ["defineProperty", "defineProperties", "assign"])
      (hblanks : ∀ b ∈ blanks, isBlank b = true) (hblanks' : ∀ b ∈ blanks', isBlank b = true)
      (hends : WordEnds rest) :
      CjsStatement (("Object." ++ name).toList
        ++ (blanks ++ '(' :: (blanks' ++ ("exports".toList ++ rest))))

theorem importRest_iff :
    importRest cs = true
      ↔ (∃ names rest, (∀ c ∈ names, IsBinding c) ∧ cs = names ++ "from".toList ++ rest)
        ∨ (∃ blanks c rest, (∀ b ∈ blanks, isBlank b = true) ∧ c ∈ ['\'', '"', '*', '\x7b']
            ∧ cs = blanks ++ c :: rest)
        ∨ ∃ rest, cs = ".meta".toList ++ rest ∧ WordEnds rest := by
  have hopening : ∀ c : Char, (decide (c = '\'') || decide (c = '"') || decide (c = '*')
      || decide (c = '\x7b')) = true ↔ c ∈ ['\'', '"', '*', '\x7b'] := by
    intro c
    simp [or_assoc]
  have hblank : ∀ c ∈ ['\'', '"', '*', '\x7b'], isBlank c = false := by
    simp [isBlank, blankRanges, Ranges.holds]
  rw [importRest, Bool.or_eq_true, Bool.or_eq_true, occursIn_from_iff,
    headIs_skipBlanks_iff fun c hc => hblank c ((hopening c).mp hc), thenMatches_iff, or_assoc]
  simp only [hopening, wordEnds_iff]

theorem exportRest_iff :
    exportRest cs = true
      ↔ WordEnds cs
        ∧ ((∃ blanks c rest, (∀ b ∈ blanks, isBlank b = true) ∧ c ∈ ['*', '\x7b']
              ∧ cs = blanks ++ c :: rest)
          ∨ ∃ word ∈ exportedWords, ∃ blanks rest, (∀ b ∈ blanks, isBlank b = true)
              ∧ cs = blanks ++ (word.toList ++ rest)) := by
  have hopening : ∀ c : Char, (decide (c = '*') || decide (c = '\x7b')) = true
      ↔ c ∈ ['*', '\x7b'] := by
    intro c
    simp
  have hblank : ∀ c ∈ ['*', '\x7b'], isBlank c = false := by
    simp [isBlank, blankRanges, Ranges.holds]
  have hwords : ∀ word ∈ exportedWords,
      ∃ x, word.toList.head? = some x ∧ isBlank x = false := by
    simp [exportedWords, isBlank, blankRanges, Ranges.holds]
  rw [exportRest, Bool.and_eq_true, Bool.or_eq_true, wordEnds_iff, List.any_eq_true,
    headIs_skipBlanks_iff fun c hc => hblank c ((hopening c).mp hc)]
  simp only [hopening]
  refine and_congr_right fun _ => or_congr_right ?_
  refine exists_congr fun word => and_congr_right fun hword => ?_
  rw [List.isPrefixOf_iff_prefix, prefix_skipBlanks_iff (hwords word hword)]

/-- The recogniser accepts exactly the texts that start with an `import` or `export` statement. -/
theorem esmStatement_iff : esmStatement cs = true ↔ EsmStatement cs := by
  simp only [esmStatement, Bool.or_eq_true, thenMatches_iff, importRest_iff, exportRest_iff]
  constructor
  · rintro (⟨_, rfl, ⟨names, rest, hnames, rfl⟩ | ⟨blanks, c, rest, hblanks, hc, rfl⟩
      | ⟨rest, rfl, hends⟩⟩ | ⟨_, rfl, hends, ⟨blanks, c, rest, hblanks, hc, rfl⟩
      | ⟨word, hword, blanks, rest, hblanks, rfl⟩⟩)
    · exact .importFrom hnames
    · exact .importOf hblanks hc
    · exact .importMeta hends
    · exact .exportOf hblanks hc hends
    · exact .exportWord hblanks hword hends
  · intro h
    cases h with
    | importFrom hnames => exact Or.inl ⟨_, rfl, Or.inl ⟨_, _, hnames, rfl⟩⟩
    | importOf hblanks hc => exact Or.inl ⟨_, rfl, Or.inr (Or.inl ⟨_, _, _, hblanks, hc, rfl⟩)⟩
    | importMeta hends => exact Or.inl ⟨_, rfl, Or.inr (Or.inr ⟨_, rfl, hends⟩)⟩
    | exportOf hblanks hc hends =>
      exact Or.inr ⟨_, rfl, hends, Or.inl ⟨_, _, _, hblanks, hc, rfl⟩⟩
    | exportWord hblanks hword hends =>
      exact Or.inr ⟨_, rfl, hends, Or.inr ⟨_, hword, _, _, hblanks, rfl⟩⟩

theorem moduleRest_iff :
    moduleRest cs = true
      ↔ ∃ c rest, c ≠ '\n' ∧ cs = c :: ("exports".toList ++ rest) ∧ WordEnds rest := by
  cases cs with
  | nil => simp [moduleRest]
  | cons c rest =>
    rw [moduleRest, Bool.and_eq_true, thenMatches_iff, decide_eq_true_eq]
    simp only [wordEnds_iff, List.cons_eq_cons]
    constructor
    · rintro ⟨hc, rest, rfl, hends⟩
      exact ⟨c, rest, hc, ⟨rfl, rfl⟩, hends⟩
    · rintro ⟨_, rest, hc, ⟨rfl, rfl⟩, hends⟩
      exact ⟨hc, rest, rfl, hends⟩

theorem callOnExports_iff :
    callOnExports cs = true
      ↔ ∃ blanks rest, (∀ b ∈ blanks, isBlank b = true) ∧ cs = blanks ++ ("(".toList ++ rest)
          ∧ ∃ blanks' rest', (∀ b ∈ blanks', isBlank b = true)
              ∧ rest = blanks' ++ ("exports".toList ++ rest') ∧ WordEnds rest' := by
  simp only [callOnExports, thenMatches_iff, wordEnds_iff]
  rw [skipBlanks_eq_append_iff ⟨'(', rfl, by decide⟩]
  simp only [skipBlanks_eq_append_iff ⟨'e', show "exports".toList.head? = some 'e' from rfl, by decide⟩]

/-- The recogniser accepts exactly the texts that start with a use of `module`, `exports`, `require`
or `global`. -/
theorem cjsStatement_iff : cjsStatement cs = true ↔ CjsStatement cs := by
  have hparen : ∀ c : Char, decide (c = '(') = true → isBlank c = false := by
    intro c hc
    rw [of_decide_eq_true hc]
    decide
  simp only [cjsStatement, Bool.or_eq_true, thenMatches_iff, moduleRest_iff, headIs_iff,
    headIs_skipBlanks_iff hparen, List.any_eq_true, callOnExports_iff, decide_eq_true_eq]
  constructor
  · rintro ((((⟨_, rfl, c, rest, hc, rfl, hends⟩ | ⟨_, rfl, c, rest, rfl, hc⟩)
      | ⟨_, rfl, blanks, _, rest, hblanks, rfl, rfl⟩) | ⟨_, rfl, c, rest, rfl, hc⟩)
      | ⟨name, hname, _, rfl, blanks, _, hblanks, rfl, blanks', rest, hblanks', rfl, hends⟩)
    · exact .moduleExports hc hends
    · exact .member (by simp) hc
    · exact .require hblanks
    · exact .member (by simp) hc
    · exact .definition hname hblanks hblanks' hends
  · intro h
    cases h with
    | moduleExports hc hends =>
      exact Or.inl (Or.inl (Or.inl (Or.inl ⟨_, rfl, _, _, hc, rfl, hends⟩)))
    | member hobject hc =>
      rcases List.mem_pair.mp hobject with rfl | rfl
      · exact Or.inl (Or.inl (Or.inl (Or.inr ⟨_, rfl, _, _, rfl, hc⟩)))
      · exact Or.inl (Or.inr ⟨_, rfl, _, _, rfl, hc⟩)
    | require hblanks => exact Or.inl (Or.inl (Or.inr ⟨_, rfl, _, _, _, hblanks, rfl, rfl⟩))
    | definition hname hblanks hblanks' hends =>
      exact Or.inr ⟨_, hname, _, rfl, _, _, hblanks, rfl, _, _, hblanks', rfl, hends⟩

/-! ### Whole texts -/

/-- A text shows the syntax of a module system exactly when a statement of that system begins
somewhere in it: at its start, or behind a line feed, a blank or a semicolon. -/
theorem shows_exact (text : String) :
    (showsEsm text = true ↔ Begins EsmStatement text.toList)
      ∧ (showsCjs text = true ↔ Begins CjsStatement text.toList) := by
  constructor
  · rw [showsEsm, showsEsmChars, atSomeStatement_iff]
    exact begins_congr fun _ => esmStatement_iff
  · rw [showsCjs, showsCjsChars, atSomeStatement_iff]
    exact begins_congr fun _ => cjsStatement_iff

end Source

end PackageLint
