import Mathlib.Data.List.TakeWhile
import PackageLint.Text.Basic

/-!
# How texts lie in texts

Texts are searched, cut and changed by what they start with, end with or hold. These are the facts about
such operations that theories of paths, patterns, code and addresses share.

## Main results

* `Text.takeWhile_eq_of_head`, `Text.dropWhile_eq_of_head` — a run of characters ends where the next one
  is not of its kind
* `Text.run_append_inj` — a run and what follows it are known from the text
* `Text.suffix_append_sep`, `Text.occursIn_append_sep` — a word does not reach across a separator
* `Text.hasStart_iff`, `Text.hasEnd_iff_suffix`, `Text.hasPart_iff` — starts, ends and parts
* `Text.replaceFirst?_append`, `Text.replaceLast?_append` — replacing one occurrence
-/

namespace PackageLint.Text

/-! ### Runs of characters -/

/-- What is taken from the front and what is left make up the text. -/
theorem takeWhile_append_drop (p : Char → Bool) (cs : List Char) :
    cs.takeWhile p ++ cs.drop (cs.takeWhile p).length = cs :=
  List.prefix_iff_eq_append.mp (List.takeWhile_prefix p)

theorem takeWhile_eq_of_head {p : Char → Bool} {front rest : List Char}
    (hfront : ∀ c ∈ front, p c = true) (hrest : ∀ c ∈ rest.head?, p c = false) :
    (front ++ rest).takeWhile p = front := by
  rw [List.takeWhile_append_of_pos hfront]
  cases rest with
  | nil => simp
  | cons c rest => simp [hrest c (by simp)]

theorem head_drop_takeWhile (p : Char → Bool) (cs : List Char) :
    ∀ c ∈ (cs.drop (cs.takeWhile p).length).head?, p c = false := by
  induction cs with
  | nil => simp
  | cons c cs ih =>
    rw [List.takeWhile_cons]
    split
    next hc => simpa using ih
    next hc => simpa using hc

theorem dropWhile_eq_of_head {p : Char → Bool} {front rest : List Char}
    (hfront : ∀ c ∈ front, p c = true) (hrest : ∀ c ∈ rest.head?, p c = false) :
    (front ++ rest).dropWhile p = rest := by
  have hall := List.takeWhile_append_dropWhile (p := p) (l := front ++ rest)
  rw [takeWhile_eq_of_head hfront hrest] at hall
  exact List.append_cancel_left hall

/-- Where a run of characters ends is known from the text. -/
theorem run_append_inj {p : Char → Bool} {a b s t : List Char} (ha : ∀ c ∈ a, p c = true)
    (hb : ∀ c ∈ b, p c = true) (hs : ∀ c ∈ s.head?, p c = false) (ht : ∀ c ∈ t.head?, p c = false)
    (h : a ++ s = b ++ t) : a = b ∧ s = t := by
  obtain rfl : a = b := by rw [← takeWhile_eq_of_head ha hs, h, takeWhile_eq_of_head hb ht]
  exact ⟨rfl, List.append_cancel_left h⟩

/-! ### Words without a separator -/

section Words

variable {c : Char} {word : List Char}

theorem suffix_append_sep (h : c ∉ word) (a b : List Char) : word <:+ a ++ c :: b ↔ word <:+ b := by
  refine ⟨fun hsuffix => ?_, fun hsuffix =>
    hsuffix.trans ((List.suffix_cons c b).trans (List.suffix_append a (c :: b)))⟩
  rcases List.suffix_or_suffix_of_suffix hsuffix (List.suffix_append a (c :: b)) with hin | hover
  · rcases List.suffix_cons_iff.mp hin with rfl | hin
    · exact absurd List.mem_cons_self h
    · exact hin
  · exact absurd (hover.mem List.mem_cons_self) h

theorem prefix_append_sep (h : c ∉ word) (a b : List Char) : word <+: a ++ c :: b ↔ word <+: a := by
  refine ⟨fun hstart => ?_, fun hstart => hstart.trans (List.prefix_append a (c :: b))⟩
  have hupto : a ++ [c] <+: a ++ c :: b := by simp
  rcases List.prefix_or_prefix_of_prefix hstart hupto with hin | hover
  · rcases List.prefix_concat_iff.mp hin with rfl | hin
    · exact absurd (by simp) h
    · exact hin
  · exact absurd (hover.mem (by simp)) h

/-- A word without a separator occurs before it or behind it. -/
theorem occursIn_append_sep (h : c ∉ word) (hne : word ≠ []) (a b : List Char) :
    occursIn word (a ++ c :: b) = (occursIn word a || occursIn word b) := by
  have hstart (cs : List Char) : word.isPrefixOf (cs ++ c :: b) = word.isPrefixOf cs := by
    rw [Bool.eq_iff_iff, List.isPrefixOf_iff_prefix, List.isPrefixOf_iff_prefix,
      prefix_append_sep h]
  induction a with
  | nil =>
    have hnil := hstart []
    rw [List.nil_append] at hnil
    rw [List.nil_append, occursIn.eq_def word (c :: b)]
    simp only [hnil]
    cases word with
    | nil => exact absurd rfl hne
    | cons x word => rfl
  | cons x a ih =>
    have hcons := hstart (x :: a)
    rw [List.cons_append] at hcons
    rw [List.cons_append, occursIn, occursIn, hcons, ih, Bool.or_assoc]

end Words

/-! ### Starts, ends and parts -/

theorem occursIn_iff {part cs : List Char} : occursIn part cs = true ↔ part <:+: cs := by
  induction cs with
  | nil => simp [occursIn]
  | cons c rest ih => simp [occursIn, ih, List.infix_cons_iff]

theorem dropStart?_eq_some_iff {start cs rest : List Char} :
    dropStart? start cs = some rest ↔ cs = start ++ rest := by
  induction start generalizing cs with
  | nil => simp [dropStart?]
  | cons x start ih =>
    cases cs with
    | nil => simp [dropStart?]
    | cons c cs =>
      rw [dropStart?]
      by_cases hx : x = c
      · simp [hx, ih]
      · simp [hx, Ne.symm hx]

theorem dropStart?_append (part cs : List Char) : dropStart? part (part ++ cs) = some cs := by
  induction part with
  | nil => rfl
  | cons e part ih => simp [dropStart?, ih]

section Strings

variable {s other : String}

theorem hasStart_iff {start : String} : hasStart s start = true ↔ start.toList <+: s.toList :=
  List.isPrefixOf_iff_prefix

theorem hasEnd_iff_suffix {ending : String} :
    hasEnd s ending = true ↔ ending.toList <:+ s.toList :=
  List.isSuffixOf_iff_suffix

theorem hasPart_iff {part : String} : hasPart s part = true ↔ part.toList <:+: s.toList :=
  occursIn_iff

/-- A text starts with one of two texts only, unless one of these starts with the other. -/
theorem hasStart_eq_false {start : String} (h : hasStart s start = true)
    (hleft : hasStart other start = false) (hright : hasStart start other = false) :
    hasStart s other = false := by
  rw [Bool.eq_false_iff, ne_eq, hasStart, List.isPrefixOf_iff_prefix] at hleft hright ⊢
  rw [hasStart, List.isPrefixOf_iff_prefix] at h
  exact fun hother => (List.prefix_or_prefix_of_prefix h hother).elim hleft hright

/-- A text ends with one of two texts only, unless one of these ends with the other. -/
theorem hasEnd_eq_false {ending : String} (h : hasEnd s ending = true)
    (hleft : hasEnd other ending = false) (hright : hasEnd ending other = false) :
    hasEnd s other = false := by
  rw [Bool.eq_false_iff, ne_eq, hasEnd, List.isSuffixOf_iff_suffix] at hleft hright ⊢
  rw [hasEnd, List.isSuffixOf_iff_suffix] at h
  exact fun hother => (List.suffix_or_suffix_of_suffix h hother).elim hleft hright

theorem hasEnd_iff {s ending : String} : hasEnd s ending = true ↔ ∃ stem, s = stem ++ ending := by
  rw [hasEnd, List.isSuffixOf_iff_suffix]
  constructor
  · rintro ⟨stem, hstem⟩
    exact ⟨String.ofList stem, String.toList_inj.mp (by simp [hstem])⟩
  · rintro ⟨stem, rfl⟩
    rw [String.toList_append]
    exact List.suffix_append _ _

theorem hasEnd_append (stem ending : String) : hasEnd (stem ++ ending) ending = true :=
  hasEnd_iff.mpr ⟨stem, rfl⟩

theorem dropEnd_append (stem ending : String) : dropEnd (stem ++ ending) ending = stem := by
  rw [dropEnd, if_pos (hasEnd_append stem ending), String.length_append, Nat.add_sub_cancel,
    String.toList_append, ← String.length_toList, List.take_left, String.ofList_toList]

theorem dropEnd_of_not_hasEnd {s ending : String} (h : hasEnd s ending = false) :
    dropEnd s ending = s := by
  simp [dropEnd, h]

/-- A text without an ending is the text, or the text had the ending. -/
theorem dropEnd_eq_or (s ending : String) : dropEnd s ending = s ∨ s = dropEnd s ending ++ ending := by
  cases h : hasEnd s ending with
  | false => exact Or.inl (dropEnd_of_not_hasEnd h)
  | true =>
    obtain ⟨stem, rfl⟩ := hasEnd_iff.mp h
    rw [dropEnd_append]
    exact Or.inr rfl

theorem dropEnd_empty (s : String) : dropEnd s "" = s := by
  have hsame := dropEnd_append s ""
  rwa [String.append_empty] at hsame

end Strings

/-! ### Replacing one occurrence -/

theorem replaceFirst?_of_not_mem {c : Char} {replacement cs : List Char} (h : c ∉ cs) :
    replaceFirst? [c] replacement cs = none := by
  induction cs with
  | nil => rfl
  | cons x rest ih =>
    obtain ⟨hx, hrest⟩ : c ≠ x ∧ c ∉ rest := by simpa using h
    rw [replaceFirst?, dropStart?, if_neg hx, ih hrest]
    rfl

theorem replaceFirst?_append {c : Char} {front : List Char} (h : c ∉ front)
    (replacement back : List Char) :
    replaceFirst? [c] replacement (front ++ c :: back) = some (front ++ (replacement ++ back)) := by
  induction front with
  | nil => simp [replaceFirst?, dropStart?]
  | cons x front ih =>
    obtain ⟨hx, hfront⟩ : c ≠ x ∧ c ∉ front := by simpa using h
    rw [List.cons_append, replaceFirst?, dropStart?, if_neg hx, ih hfront]
    rfl

theorem replaceLast?_eq_none {part replacement cs : List Char} (h : cs.length < part.length) :
    replaceLast? part replacement cs = none := by
  have hdrop : ∀ {part cs : List Char}, cs.length < part.length → dropStart? part cs = none := by
    intro part
    induction part with
    | nil => simp
    | cons e part ih =>
      intro cs h
      cases cs with
      | nil => rfl
      | cons x cs =>
        rw [dropStart?]
        split
        · exact ih (by simpa using h)
        · rfl
  induction cs with
  | nil =>
    cases part with
    | nil => simp at h
    | cons e part => rfl
  | cons x cs ih =>
    rw [replaceLast?, ih (by simp at h; omega), hdrop h]
    rfl

/-- The last occurrence of what a text ends with is at its end. -/
theorem replaceLast?_append (part replacement cs : List Char) :
    replaceLast? part replacement (cs ++ part) = some (cs ++ replacement) := by
  induction cs with
  | nil =>
    cases part with
    | nil => rfl
    | cons e part =>
      have hdrop := dropStart?_append (e :: part) []
      rw [List.append_nil] at hdrop
      rw [List.nil_append, replaceLast?, replaceLast?_eq_none (by simp), hdrop]
      simp
  | cons x cs ih => rw [List.cons_append, replaceLast?, ih, List.cons_append]

theorem replaceLast_append (stem part replacement : String) :
    replaceLast (stem ++ part) part replacement = stem ++ replacement := by
  refine String.toList_inj.mp ?_
  rw [replaceLast, String.toList_append, replaceLast?_append]
  simp

end PackageLint.Text
