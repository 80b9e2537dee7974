import PackageLint.Proofs.ModuleStatements
import PackageLint.Source.Markers

/-!
# Where the flow mark counts

A file whose first comment begins with `@flow` is in another dialect, and its format is not judged. The
mark is meant to come first. It is looked for at the start of every line, though, so a comment in the
middle of a file counts as well, and no beginning of a file keeps its format checks from being turned
off further down.

The blanks before a comment and within it may hold line feeds. So the mark need not stand on the line
on which its comment opens.

## Main definitions

* `Source.FlowComment` — a comment with the mark, at the start of a text
* `Source.StartsAsComment` — the first line that is not blank starts with the mark of a comment
* `Source.MarkedLater` — a comment with the mark begins a line after the first

## Main results

* `Source.hasFlowMark_iff` — which texts have the mark
* `Source.code_first_judged_iff` — which of the texts that start with code are judged
-/

namespace PackageLint.Source

open Text

variable {cs before rest : List Char}

/-! ### Comments with the mark -/

/-- Blanks and a comment that begins with the mark start the text. -/
inductive FlowComment : List Char → Prop
  | mk {blanks blanks' rest : List Char} {opening : String}
      (hblanks : ∀ b ∈ blanks, isBlank b = true) (hopening : opening ∈ ["//", "/*", "/**", "*"])
      (hblanks' : ∀ b ∈ blanks', isBlank b = true) :
      FlowComment (blanks ++ (opening.toList ++ (blanks' ++ ("@flow".toList ++ rest))))

/-- The first character that is not blank, and with it the first line that is not, starts with the mark
of a comment. -/
def StartsAsComment (cs : List Char) : Prop :=
  ∃ blanks rest, ∃ opening ∈ ["//", "/*", "*"], (∀ b ∈ blanks, isBlank b = true)
    ∧ cs = blanks ++ (opening.toList ++ rest)

/-- A comment with the mark begins a line, and something that is not blank comes before that line. -/
def MarkedLater (cs : List Char) : Prop :=
  ∃ before rest, cs = before ++ '\n' :: rest ∧ (∃ c ∈ before, isBlank c = false)
    ∧ FlowComment rest

theorem flowMarkNext_iff : flowMarkNext cs = true ↔ FlowComment cs := by
  have hopenings : ∀ opening ∈ commentOpenings,
      ∃ x, opening.toList.head? = some x ∧ isBlank x = false := by
    simp [commentOpenings, isBlank, blankRanges, Ranges.holds]
  have hmark : ∃ x, "@flow".toList.head? = some x ∧ isBlank x = false := ⟨'@', rfl, by decide⟩
  have hnext : flowMarkNext cs = commentOpenings.any fun opening =>
      thenMatches opening (fun rest => "@flow".toList.isPrefixOf (skipBlanks rest))
        (skipBlanks cs) := rfl
  rw [hnext, List.any_eq_true]
  simp only [thenMatches_iff, List.isPrefixOf_iff_prefix, prefix_skipBlanks_iff hmark]
  constructor
  · rintro ⟨opening, hopening, hrest⟩
    obtain ⟨blanks, -, hblanks, rfl, blanks', rest, hblanks', rfl⟩ :=
      (skipBlanks_eq_append_iff (hopenings opening hopening)).mp hrest
    exact .mk hblanks (by simpa [commentOpenings, or_left_comm] using hopening) hblanks'
  · rintro @⟨blanks, blanks', rest, opening, hblanks, hopening, hblanks'⟩
    have hopening : opening ∈ commentOpenings := by
      simpa [commentOpenings, or_left_comm] using hopening
    exact ⟨opening, hopening, (skipBlanks_eq_append_iff (hopenings opening hopening)).mpr
      ⟨blanks, _, hblanks, rfl, blanks', rest, hblanks', rfl⟩⟩

theorem flowMarkAfterLine_iff :
    flowMarkAfterLine cs = true ↔ ∃ before rest, cs = before ++ '\n' :: rest ∧ FlowComment rest := by
  induction cs with
  | nil => simp [flowMarkAfterLine]
  | cons x cs ih =>
    rw [flowMarkAfterLine, Bool.or_eq_true, Bool.and_eq_true, decide_eq_true_eq, flowMarkNext_iff, ih]
    constructor
    · rintro (⟨rfl, h⟩ | ⟨before, rest, rfl, h⟩)
      · exact ⟨[], cs, rfl, h⟩
      · exact ⟨x :: before, rest, rfl, h⟩
    · rintro ⟨before, rest, heq, h⟩
      cases before with
      | nil =>
        obtain ⟨rfl, rfl⟩ := List.cons_eq_cons.mp heq
        exact Or.inl ⟨rfl, h⟩
      | cons y before =>
        obtain ⟨rfl, rfl⟩ := List.cons_eq_cons.mp heq
        exact Or.inr ⟨before, rest, rfl, h⟩

/-- A text has the mark when a comment with it begins the text, or a line further down. -/
theorem hasFlowMark_iff :
    hasFlowMark cs = true
      ↔ FlowComment cs ∨ ∃ before rest, cs = before ++ '\n' :: rest ∧ FlowComment rest := by
  rw [hasFlowMark, Bool.or_eq_true, flowMarkNext_iff, flowMarkAfterLine_iff]

/-! ### Texts that start with code -/

/-- A comment with the mark that only blanks precede is the start of the text. -/
theorem FlowComment.startsAsComment (h : FlowComment rest) (hbefore : ∀ b ∈ before, isBlank b = true) :
    StartsAsComment (before ++ rest) := by
  obtain @⟨blanks, blanks', rest, opening, hblanks, hopening, hblanks'⟩ := h
  have hall : ∀ b ∈ before ++ blanks, isBlank b = true := fun b hb =>
    (List.mem_append.mp hb).elim (hbefore b) (hblanks b)
  have hshort : ∃ short ∈ ["//", "/*", "*"], ∃ more, opening.toList = short.toList ++ more := by
    simp only [List.mem_cons, List.not_mem_nil, or_false] at hopening
    rcases hopening with rfl | rfl | rfl | rfl
    · exact ⟨"//", by simp, [], rfl⟩
    · exact ⟨"/*", by simp, [], rfl⟩
    · exact ⟨"/*", by simp, ['*'], rfl⟩
    · exact ⟨"*", by simp, [], rfl⟩
  obtain ⟨short, hmem, more, heq⟩ := hshort
  exact ⟨before ++ blanks, more ++ (blanks' ++ ("@flow".toList ++ rest)), short, hmem, hall,
    by simp [heq]⟩

/-- A text that does not start with a comment has the mark just if a later line has it. -/
theorem hasFlowMark_iff_markedLater (h : ¬StartsAsComment cs) :
    hasFlowMark cs = true ↔ MarkedLater cs := by
  rw [hasFlowMark_iff]
  constructor
  · rintro (hstart | ⟨before, rest, rfl, hrest⟩)
    · have hfirst : StartsAsComment ([] ++ cs) := hstart.startsAsComment (by simp)
      exact absurd hfirst h
    · refine ⟨before, rest, rfl, ?_, hrest⟩
      by_contra hblank
      have hbefore : ∀ b ∈ before ++ ['\n'], isBlank b = true := by
        intro b hb
        rcases List.mem_append.mp hb with hb | hb
        · by_contra hno
          exact hblank ⟨b, hb, by simpa using hno⟩
        · rw [List.mem_singleton.mp hb]
          decide
      exact h (by simpa using hrest.startsAsComment hbefore)
  · rintro ⟨before, rest, rfl, -, hrest⟩
    exact Or.inr ⟨before, rest, rfl, hrest⟩

theorem startsAsComment_iff :
    StartsAsComment cs ↔ ∃ opening ∈ ["//", "/*", "*"], opening.toList <+: skipBlanks cs := by
  have hopenings : ∀ opening ∈ ["//", "/*", "*"],
      ∃ x, opening.toList.head? = some x ∧ isBlank x = false := by
    simp [isBlank, blankRanges, Ranges.holds]
  constructor
  · rintro ⟨blanks, rest, opening, hopening, hblanks, heq⟩
    exact ⟨opening, hopening,
      (prefix_skipBlanks_iff (hopenings opening hopening)).mpr ⟨blanks, rest, hblanks, heq⟩⟩
  · rintro ⟨opening, hopening, h⟩
    obtain ⟨blanks, rest, hblanks, heq⟩ := (prefix_skipBlanks_iff (hopenings opening hopening)).mp h
    exact ⟨blanks, rest, opening, hopening, hblanks, heq⟩

/-- What starts a text and has no line feed starts the first line of it. -/
theorem prefix_of_prefix_append_feed {start line rest : List Char} (hstart : '\n' ∉ start)
    (h : start <+: line ++ '\n' :: rest) : start <+: line := by
  obtain ⟨more, heq⟩ := h
  rcases List.append_eq_append_iff.mp heq with ⟨between, rfl, -⟩ | ⟨between, rfl, hfeed⟩
  · exact List.prefix_append _ _
  · cases between with
    | nil => simp
    | cons c between =>
      obtain ⟨rfl, -⟩ := List.cons_eq_cons.mp hfeed
      simp at hstart

/-- Code on the next line does not make a text start with a comment. -/
theorem not_startsAsComment_append (h : ¬StartsAsComment cs) (more : List Char) :
    ¬StartsAsComment (cs ++ '\n' :: ';' :: more) := by
  rw [startsAsComment_iff] at h ⊢
  rintro ⟨opening, hopening, hstarts⟩
  have hfeed : '\n' ∉ opening.toList ∧ ¬opening.toList <+: ';' :: more := by
    simp only [List.mem_cons, List.not_mem_nil, or_false] at hopening
    rcases hopening with rfl | rfl | rfl <;> simp [List.cons_prefix_cons]
  have hcode : skipBlanks ('\n' :: ';' :: more) = ';' :: more := by
    simp [skipBlanks, isBlank, blankRanges, Ranges.holds]
  rw [skipBlanks, List.dropWhile_append] at hstarts
  split at hstarts
  · exact hfeed.2 (hcode ▸ hstarts)
  · exact h ⟨opening, hopening, prefix_of_prefix_append_feed hfeed.1 hstarts⟩

/-! ### Which texts are judged -/

theorem isLintable_eq_false_iff {content : String} :
    isLintable content = false ↔ hasFlowMark content.toList = true := by
  simp [isLintable]

/-- A text that does not start with a comment is judged just if no later line begins with a comment that
has the mark. That it starts with code does not help: some text that starts in the same way is not
judged. -/
theorem code_first_judged_iff {content : String} (h : ¬StartsAsComment content.toList) :
    (isLintable content = true ↔ ¬MarkedLater content.toList)
      ∧ ∀ more : String, ¬StartsAsComment (content ++ "\n;\n// @flow" ++ more).toList
        ∧ isLintable (content ++ "\n;\n// @flow" ++ more) = false := by
  refine ⟨?_, fun more => ?_⟩
  · rw [← hasFlowMark_iff_markedLater h, ← isLintable_eq_false_iff, Bool.not_eq_false]
  · have hsplit : (content ++ "\n;\n// @flow" ++ more).toList
        = (content.toList ++ ['\n', ';']) ++ '\n' :: ("// @flow".toList ++ more.toList) := by
      simp [String.toList_append]
    have hmark : FlowComment ("// @flow".toList ++ more.toList) := by
      have := @FlowComment.mk [] [' '] more.toList "//" (by simp) (by simp) (by simp; decide)
      simpa using this
    refine ⟨?_, isLintable_eq_false_iff.mpr (hasFlowMark_iff.mpr (Or.inr ⟨_, _, hsplit, hmark⟩))⟩
    have hcode := not_startsAsComment_append h ('\n' :: ("// @flow".toList ++ more.toList))
    rw [hsplit]
    simpa using hcode

/-- An import comes first, and a comment on the next line keeps the file from being judged. -/
theorem mark_behind_import_exempts :
    ¬StartsAsComment "import a from 'a'\n// @flow\n".toList
      ∧ MarkedLater "import a from 'a'\n// @flow\n".toList
      ∧ isLintable "import a from 'a'\n// @flow\n" = false := by
  have hcode : ¬StartsAsComment "import a from 'a'\n// @flow\n".toList := by
    rw [startsAsComment_iff]
    decide +kernel
  have hmarked : isLintable "import a from 'a'\n// @flow\n" = false := by decide +kernel
  refine ⟨hcode, ?_, hmarked⟩
  by_contra hlater
  have hjudged := (code_first_judged_iff hcode).1.mpr hlater
  exact absurd hjudged (by simp [hmarked])

end PackageLint.Source
