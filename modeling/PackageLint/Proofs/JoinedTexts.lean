import PackageLint.Proofs.LineComments
import PackageLint.Proofs.ModuleStatements

/-!
# Texts that are joined

Two texts with a line feed between them show whatever either of them shows: more code never hides the
syntax of a module system.

The line feed is what makes this so. A statement of the first text may end in a word that has to be over,
and without a line feed the second text could go on with the word. A statement of the second text may
have to begin a line. In the other direction nothing holds, for a statement may begin in the first text
and end in the second.

For the format that code looks like, comments have to be kept out. The first text may open a block
comment that the second closes, and then all between the marks is gone.

## Main definitions

* `Source.IsCommentFree` — texts without the mark of a comment

## Main results

* `Source.EsmStatement.append_line`, `Source.CjsStatement.append_line` — statements stay statements
* `Source.classify_of_commentFree` — without comments, a text looks like what it shows
* `Source.joined_shows` — what texts that are joined show, and look like
-/

namespace PackageLint.Source

open Text

variable {cs a b : List Char}

/-! ### Statements before a line feed -/

theorem WordEnds.append_line (h : WordEnds cs) (rest : List Char) :
    WordEnds (cs ++ '\n' :: rest) := by
  cases cs with
  | nil =>
    intro c hc
    obtain rfl : '\n' = c := by simpa using hc
    decide
  | cons x cs => exact h

/-- An `import` or `export` statement is one whatever the lines after it hold. -/
theorem EsmStatement.append_line (h : EsmStatement cs) (rest : List Char) :
    EsmStatement (cs ++ '\n' :: rest) := by
  cases h with
  | importFrom hnames => simpa using EsmStatement.importFrom hnames
  | importOf hblanks hc => simpa using EsmStatement.importOf hblanks hc
  | importMeta hends => simpa using EsmStatement.importMeta (hends.append_line rest)
  | exportOf hblanks hc hends =>
    have hends := hends.append_line rest
    rw [List.append_assoc, List.cons_append] at hends
    simpa using EsmStatement.exportOf hblanks hc hends
  | exportWord hblanks hword hends =>
    have hends := hends.append_line rest
    rw [List.append_assoc, List.append_assoc] at hends
    simpa using EsmStatement.exportWord hblanks hword hends

/-- So is a use of `module`, `exports`, `require` or `global`. -/
theorem CjsStatement.append_line (h : CjsStatement cs) (rest : List Char) :
    CjsStatement (cs ++ '\n' :: rest) := by
  cases h with
  | moduleExports hc hends => simpa using CjsStatement.moduleExports hc (hends.append_line rest)
  | member hobject hc => simpa using CjsStatement.member hobject hc
  | require hblanks => simpa using CjsStatement.require hblanks
  | definition hname hblanks hblanks' hends =>
    simpa using CjsStatement.definition hname hblanks hblanks' (hends.append_line rest)

/-! ### Statements in either text -/

variable {form : List Char → Prop}

theorem Begins.append_line (hform : ∀ cs, form cs → form (cs ++ '\n' :: b)) (h : Begins form a) :
    Begins form (a ++ '\n' :: b) := by
  obtain ⟨before, rest, rfl, hbefore, hrest⟩ := h
  exact ⟨before, rest ++ '\n' :: b, List.append_assoc .., hbefore, hform rest hrest⟩

/-- What may begin at the start of a text may begin behind a line feed. -/
theorem Begins.behind_line (h : Begins form b) : Begins form (a ++ '\n' :: b) := by
  obtain ⟨before, rest, rfl, hbefore, hrest⟩ := h
  refine ⟨a ++ '\n' :: before, rest, by simp, Or.inr ?_, hrest⟩
  rcases hbefore with rfl | ⟨c, hlast, hc⟩
  · exact ⟨'\n', by simp, Or.inl rfl⟩
  · obtain ⟨front, rfl⟩ := List.getLast?_eq_some_iff.mp hlast
    exact ⟨c, List.getLast?_eq_some_iff.mpr ⟨a ++ '\n' :: front, by simp⟩, hc⟩

theorem begins_joined (hform : ∀ cs, form cs → form (cs ++ '\n' :: b))
    (h : Begins form a ∨ Begins form b) : Begins form (a ++ '\n' :: b) :=
  h.elim (Begins.append_line hform) Begins.behind_line

theorem showsEsmChars_iff : showsEsmChars cs = true ↔ Begins EsmStatement cs := by
  rw [showsEsmChars, atSomeStatement_iff]
  exact begins_congr fun _ => esmStatement_iff

theorem showsCjsChars_iff : showsCjsChars cs = true ↔ Begins CjsStatement cs := by
  rw [showsCjsChars, atSomeStatement_iff]
  exact begins_congr fun _ => cjsStatement_iff

theorem toList_joined (a b : String) : (a ++ "\n" ++ b).toList = a.toList ++ '\n' :: b.toList := by
  simp [String.toList_append]

theorem showsEsm_joined {a b : String} (h : showsEsm a = true ∨ showsEsm b = true) :
    showsEsm (a ++ "\n" ++ b) = true := by
  simp only [showsEsm, showsEsmChars_iff, toList_joined] at h ⊢
  exact begins_joined (fun _ hform => hform.append_line _) h

theorem showsCjs_joined {a b : String} (h : showsCjs a = true ∨ showsCjs b = true) :
    showsCjs (a ++ "\n" ++ b) = true := by
  simp only [showsCjs, showsCjsChars_iff, toList_joined] at h ⊢
  exact begins_joined (fun _ hform => hform.append_line _) h

/-! ### Texts without comments -/

/-- No mark of a comment comes in the text. -/
structure IsCommentFree (cs : List Char) : Prop where
  no_block : ¬['/', '*'] <:+: cs
  no_line : ¬['/', '/'] <:+: cs

theorem IsCommentFree.of_infix (h : IsCommentFree b) (hab : a <:+: b) : IsCommentFree a :=
  ⟨fun hmark => h.no_block (hmark.trans hab), fun hmark => h.no_line (hmark.trans hab)⟩

theorem dropBlockComments_eq_self (h : ¬['/', '*'] <:+: cs) : dropBlockComments cs = cs := by
  induction cs with
  | nil => rfl
  | cons c cs ih =>
    rw [List.infix_cons_iff, not_or] at h
    rw [dropBlockComments_char h.1, ih h.2]

theorem dropLineComments_eq_self (h : ¬['/', '/'] <:+: cs) : dropLineComments cs = cs := by
  induction cs with
  | nil => rfl
  | cons c cs ih =>
    rw [List.infix_cons_iff, not_or] at h
    rw [dropLineComments_char h.1, ih h.2]

theorem IsCommentFree.stripCommentChars_eq (h : IsCommentFree cs) : stripCommentChars cs = cs := by
  rw [stripCommentChars, dropBlockComments_eq_self h.no_block, dropLineComments_eq_self h.no_line]

/-- A text without comments looks like what it shows. -/
theorem classify_of_commentFree {code : String} (h : IsCommentFree code.toList) :
    classify code = formatOf (showsEsm code) (showsCjs code) := by
  rw [classify_eq, h.stripCommentChars_eq, showsEsm, showsCjs]

theorem formatOf_eq_unknown_iff {esm cjs : Bool} :
    formatOf esm cjs = .unknown ↔ ¬(esm = true ∨ cjs = true) := by
  cases esm <;> cases cjs <;> simp [formatOf]

theorem formatOf_eq_esm_iff {esm cjs : Bool} :
    formatOf esm cjs = .esm ↔ esm = true ∧ cjs = false := by
  cases esm <;> cases cjs <;> simp [formatOf]

theorem formatOf_eq_cjs_iff {esm cjs : Bool} :
    formatOf esm cjs = .cjs ↔ esm = false ∧ cjs = true := by
  cases esm <;> cases cjs <;> simp [formatOf]

/-! ### Joined texts -/

/-- Texts that are joined by a line feed show the syntax that either shows. Where no comment comes in
them, they look mixed when one shows ESM and the other CJS, in particular when the one looks like the
one format and the other like the other; and they do not look unknown unless both do. -/
theorem joined_shows (a b : String) :
    (showsEsm a = true ∨ showsEsm b = true → showsEsm (a ++ "\n" ++ b) = true)
      ∧ (showsCjs a = true ∨ showsCjs b = true → showsCjs (a ++ "\n" ++ b) = true)
      ∧ (IsCommentFree (a ++ "\n" ++ b).toList →
          ((showsEsm a = true ∨ showsEsm b = true) → (showsCjs a = true ∨ showsCjs b = true) →
            classify (a ++ "\n" ++ b) = .mixed)
          ∧ (classify a = .esm ∧ classify b = .cjs ∨ classify a = .cjs ∧ classify b = .esm →
            classify (a ++ "\n" ++ b) = .mixed)
          ∧ (classify a ≠ .unknown ∨ classify b ≠ .unknown →
            classify (a ++ "\n" ++ b) ≠ .unknown)) := by
  refine ⟨showsEsm_joined, showsCjs_joined, fun hfree => ?_⟩
  have hjoined := toList_joined a b
  have ha : IsCommentFree a.toList := by
    refine hfree.of_infix ?_
    rw [hjoined]
    exact (List.prefix_append _ _).isInfix
  have hb : IsCommentFree b.toList := by
    refine hfree.of_infix ?_
    rw [hjoined]
    exact (List.suffix_append_of_suffix (List.suffix_cons _ _)).isInfix
  have hmixed : (showsEsm a = true ∨ showsEsm b = true) → (showsCjs a = true ∨ showsCjs b = true) →
      classify (a ++ "\n" ++ b) = .mixed := by
    intro hesm hcjs
    rw [classify_of_commentFree hfree, showsEsm_joined hesm, showsCjs_joined hcjs]
    rfl
  refine ⟨hmixed, ?_, ?_⟩
  · simp only [classify_of_commentFree ha, classify_of_commentFree hb, formatOf_eq_esm_iff,
      formatOf_eq_cjs_iff]
    rintro (⟨⟨hesm, -⟩, -, hcjs⟩ | ⟨⟨-, hcjs⟩, hesm, -⟩)
    · exact hmixed (Or.inl hesm) (Or.inr hcjs)
    · exact hmixed (Or.inr hesm) (Or.inl hcjs)
  · simp only [classify_of_commentFree ha, classify_of_commentFree hb,
      classify_of_commentFree hfree, ne_eq, formatOf_eq_unknown_iff, not_not]
    rintro ((hesm | hcjs) | hesm | hcjs)
    · exact Or.inl (showsEsm_joined (Or.inl hesm))
    · exact Or.inr (showsCjs_joined (Or.inl hcjs))
    · exact Or.inl (showsEsm_joined (Or.inr hesm))
    · exact Or.inr (showsCjs_joined (Or.inr hcjs))

/-- The word that ends the first text is over before the statement that begins the second. -/
theorem joined_words_mixed :
    IsCommentFree "x = module.exports\nimport{y}from 'z'".toList
      ∧ classify "x = module.exports" = .cjs ∧ classify "import{y}from 'z'" = .esm
      ∧ classify "x = module.exports\nimport{y}from 'z'" = .mixed := by
  have hfree : IsCommentFree ("x = module.exports" ++ "\n" ++ "import{y}from 'z'").toList :=
    ⟨by simp [List.infix_cons_iff], by simp [List.infix_cons_iff]⟩
  have hcjs : classify "x = module.exports" = .cjs := by decide +kernel
  have hesm : classify "import{y}from 'z'" = .esm := by decide +kernel
  exact ⟨hfree, hcjs, hesm, ((joined_shows _ _).2.2 hfree).2.1 (Or.inr ⟨hcjs, hesm⟩)⟩

-- Neither line shows anything, and the two together do.
example : classify "import" = .unknown ∧ classify "{y}" = .unknown
    ∧ classify ("import" ++ "\n" ++ "{y}") = .esm := by decide +kernel

end PackageLint.Source
