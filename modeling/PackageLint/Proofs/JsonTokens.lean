import PackageLint.Proofs.Decompositions
import PackageLint.Proofs.DistinctKeys

/-!
# The tokens of JSON texts

The reader goes through a text once and takes as much as it can of every token. What it takes is told here
by the form of the token alone: a string up to its closing quote, a number with its parts, a word. A token
that is followed by something that would continue it is not read as written, so the lemmas that say what
is read ask that nothing continues it.

An integer may be of the right form and still not be read, for it may have too many digits. A number with
a fraction or an exponent has no such bound.

## Main definitions

* `Json.IsStringEnd` — what follows the opening quote of a string
* `Json.IsUnsigned`, `Json.IsTooLong` — numbers that are read, and integers that are not
* `Json.Continues` — a text starts with something that continues a number
* `Json.IsScalar` — numbers and words

## Main results

* `Json.stringFrom_sound`, `Json.stringFrom_complete` — the reader of strings takes exactly these
* `Json.TakesNumber.read` — what is read of the parts that are found of a number
* `Json.scalar_sound`, `Json.scalar_complete` — the reader of numbers and words takes exactly these
* `Json.isTooLong_of_scalar`, `Json.scalar_of_isTooLong` — where it gives up for the length of an integer
-/

namespace PackageLint.Json

open Text (takeWhile_append_drop takeWhile_eq_of_head head_drop_takeWhile)

/-! ### Blanks -/

/-- A run of blanks between tokens. -/
def AreSpaces (cs : List Char) : Prop := ∀ c ∈ cs, isSpace c = true

@[simp] theorem rest_advance (c : Cursor) (n : Nat) : (c.advance n).rest = c.rest.drop n := rfl

theorem rest_advance_one {c : Cursor} {x : Char} {rest : List Char} (h : c.rest = x :: rest) :
    (c.advance 1).rest = rest := by
  rw [rest_advance, h, List.drop_succ_cons, List.drop_zero]

theorem exists_spaces (c : Cursor) : ∃ s, AreSpaces s ∧ c.rest = s ++ c.skipSpace.rest :=
  ⟨_, fun _ hx => List.mem_takeWhile_imp hx, (takeWhile_append_drop isSpace c.rest).symm⟩

theorem rest_skipSpace_of_append {c : Cursor} {s rest : List Char} (hs : AreSpaces s)
    (hrest : ∀ x ∈ rest.head?, isSpace x = false) (h : c.rest = s ++ rest) :
    c.skipSpace.rest = rest := by
  rw [Cursor.skipSpace, h, takeWhile_eq_of_head hs hrest, List.drop_left]

/-! ### Strings -/

/-- A hexadecimal digit in either case. -/
def IsHex (c : Char) : Prop :=
  '0' ≤ c ∧ c ≤ '9' ∨ 'a' ≤ c ∧ c ≤ 'f' ∨ 'A' ≤ c ∧ c ≤ 'F'

/-- The characters that may follow a backslash by themselves. -/
def escapable : List Char := ['"', '\\', '/', 'b', 'f', 'n', 'r', 't']

/-- What follows the opening quote of a string, with the closing quote. -/
inductive IsStringEnd : List Char → Prop
  | close : IsStringEnd ['"']
  | char {c : Char} {cs : List Char} (hquote : c ≠ '"') (hslash : c ≠ '\\') (hc : 0x20 ≤ c.toNat)
      (h : IsStringEnd cs) : IsStringEnd (c :: cs)
  | escape {c : Char} {cs : List Char} (hc : c ∈ escapable) (h : IsStringEnd cs) :
    IsStringEnd ('\\' :: c :: cs)
  | unit {a b c d : Char} {cs : List Char} (hunit : ∀ x ∈ [a, b, c, d], IsHex x)
      (h : IsStringEnd cs) : IsStringEnd ('\\' :: 'u' :: a :: b :: c :: d :: cs)

theorem simpleEscape?_isSome {c : Char} : (simpleEscape? c).isSome = true ↔ c ∈ escapable := by
  simp only [simpleEscape?, escapable, List.mem_cons, List.not_mem_nil, or_false]
  split <;> simp_all

theorem hexValue?_isSome {c : Char} : (Text.hexValue? c).isSome = true ↔ IsHex c := by
  rw [Text.hexValue?, IsHex]
  split
  · simp_all
  · split
    · simp_all
    · split <;> simp_all

theorem hex4?_isSome {a b c d : Char} :
    (hex4? a b c d).isSome = true ↔ ∀ x ∈ [a, b, c, d], IsHex x := by
  simp only [← hexValue?_isSome, List.forall_mem_cons, List.not_mem_nil, false_imp_iff, implies_true,
    and_true, hex4?, Text.hexNumber?, List.foldlM_cons, List.foldlM_nil]
  cases Text.hexValue? a <;> cases Text.hexValue? b <;> cases Text.hexValue? c <;>
    cases Text.hexValue? d <;> simp

theorem IsStringEnd.ne_nil {cs : List Char} (h : IsStringEnd cs) : cs ≠ [] := by
  cases h <;> simp

/-- A string that is read has the form of one. -/
theorem stringFrom_sound {start position : Nat} {acc : List Piece} {cs : List Char} {s : String}
    {c' : Cursor} :
    stringFrom start position acc cs = .ok (s, c') →
      ∃ front, cs = front ++ c'.rest ∧ IsStringEnd front := by
  fun_induction stringFrom start position acc cs with
  | case2 position acc rest =>
    intro h
    obtain ⟨-, rfl⟩ := Prod.mk.inj (Except.ok.inj h)
    exact ⟨['"'], rfl, .close⟩
  | case6 position acc a b c d unit x rest hunit ih =>
    intro h
    obtain ⟨front, heq, hfront⟩ := ih h
    exact ⟨_, by rw [heq]; rfl, .unit (hex4?_isSome.mp (by simp [hunit])) hfront⟩
  | case8 position acc c rest hno hu escaped hescaped ih =>
    intro h
    obtain ⟨front, rfl, hfront⟩ := ih h
    exact ⟨_, rfl, .escape (simpleEscape?_isSome.mp (by simp [hescaped])) hfront⟩
  | case11 position acc c rest hquote hslash _ hslash' hcontrol ih =>
    intro h
    have hne : c ≠ '\\' := by
      cases rest with
      | nil => exact fun hc => hslash hc rfl
      | cons x rest => exact fun hc => hslash' x rest hc rfl
    obtain ⟨front, rfl, hfront⟩ := ih h
    exact ⟨_, rfl, .char hquote hne (by omega) hfront⟩
  | _ => simp

/-- Reading a string never meets a number. -/
theorem stringFrom_ne_tooManyDigits {start position : Nat} {acc : List Piece} {cs : List Char}
    {n : Nat} : stringFrom start position acc cs ≠ .error (.tooManyDigits n) := by
  fun_induction stringFrom start position acc cs with
  | case6 _ _ _ _ _ _ _ _ _ _ ih => exact ih
  | case8 _ _ _ _ _ _ _ _ ih => exact ih
  | case11 _ _ _ _ _ _ _ _ _ ih => exact ih
  | _ => simp

section Steps

variable {start position : Nat} {acc : List Piece} {c : Char} {rest : List Char}

theorem stringFrom_char (hquote : c ≠ '"') (hslash : c ≠ '\\') (hc : 0x20 ≤ c.toNat) :
    stringFrom start position acc (c :: rest)
      = stringFrom start (position + 1) (.char c :: acc) rest := by
  rw [stringFrom, if_neg (by omega)] <;> simp_all

theorem stringFrom_escape {escaped : Char} (hc : simpleEscape? c = some escaped) :
    stringFrom start position acc ('\\' :: c :: rest)
      = stringFrom start (position + 2) (.char escaped :: acc) rest := by
  have hu : c ≠ 'u' := by
    rintro rfl
    simp [simpleEscape?] at hc
  rw [stringFrom, if_neg hu, hc]
  simp_all

/-- A code unit is read when something follows it. -/
theorem stringFrom_unit {a b c d : Char} {unit : Nat} (hunit : hex4? a b c d = some unit)
    (hrest : rest ≠ []) :
    stringFrom start position acc ('\\' :: 'u' :: a :: b :: c :: d :: rest)
      = stringFrom start (position + 6) (.unit unit :: acc) rest := by
  obtain ⟨x, more, rfl⟩ := List.exists_cons_of_ne_nil hrest
  rw [stringFrom.eq_def]
  simp only [hunit]

end Steps

/-- What has the form of a string is read as one, whatever follows. -/
theorem stringFrom_complete {front : List Char} (h : IsStringEnd front) (start position : Nat)
    (acc : List Piece) (rest : List Char) :
    ∃ s c', stringFrom start position acc (front ++ rest) = .ok (s, c') ∧ c'.rest = rest := by
  induction h generalizing position acc with
  | close => exact ⟨_, _, rfl, rfl⟩
  | char hquote hslash hc h ih =>
    rw [List.cons_append, stringFrom_char hquote hslash hc]
    exact ih _ _
  | escape hc h ih =>
    obtain ⟨escaped, hescaped⟩ := Option.isSome_iff_exists.mp (simpleEscape?_isSome.mpr hc)
    rw [List.cons_append, List.cons_append, stringFrom_escape hescaped]
    exact ih _ _
  | unit hunit h ih =>
    obtain ⟨unit, hvalue⟩ := Option.isSome_iff_exists.mp (hex4?_isSome.mpr hunit)
    simp only [List.cons_append]
    rw [stringFrom_unit hvalue (List.append_ne_nil_of_left_ne_nil h.ne_nil rest)]
    exact ih _ _

/-! ### The parts of numbers -/

/-- A run of digits. -/
def AreDigits (cs : List Char) : Prop := cs ≠ [] ∧ ∀ c ∈ cs, isDigit c = true

/-- The whole part of a number: a zero, or digits that do not start with one. -/
def IsWhole (cs : List Char) : Prop := cs = ['0'] ∨ AreDigits cs ∧ cs.head? ≠ some '0'

/-- The fraction of a number, with its point. -/
inductive IsFraction : List Char → Prop
  | mk {digits : List Char} (h : AreDigits digits) : IsFraction ('.' :: digits)

/-- The exponent of a number, with its letter. -/
inductive IsExponent : List Char → Prop
  | mk {e : Char} {sign digits : List Char} (he : e = 'e' ∨ e = 'E')
      (hsign : sign ∈ [[], ['+'], ['-']]) (h : AreDigits digits) : IsExponent (e :: (sign ++ digits))

/-- Something that would continue a number starts a text. -/
def Continues (cs : List Char) : Prop :=
  ∃ front back, cs = front ++ back ∧ (AreDigits front ∨ IsFraction front ∨ IsExponent front)

variable {cs rest : List Char}

theorem IsWhole.ne_nil (h : IsWhole cs) : cs ≠ [] := by
  rcases h with rfl | h
  · simp
  · exact h.1.1

theorem integerDigits_of_ne (h : cs.head? ≠ some '0') :
    integerDigits cs = cs.takeWhile isDigit := by
  unfold integerDigits
  split
  · simp at h
  · rfl

theorem integerDigits_append {whole : List Char} (hwhole : IsWhole whole)
    (hrest : ∀ c ∈ rest.head?, isDigit c = false) : integerDigits (whole ++ rest) = whole := by
  rcases hwhole with rfl | ⟨⟨hne, hdigits⟩, hhead⟩
  · rfl
  · rw [integerDigits_of_ne (by rwa [List.head?_append_of_ne_nil _ hne]),
      takeWhile_eq_of_head hdigits hrest]

theorem integerDigits_append_drop (cs : List Char) :
    integerDigits cs ++ cs.drop (integerDigits cs).length = cs := by
  by_cases h : cs.head? = some '0'
  · obtain ⟨rest, rfl⟩ := List.head?_eq_some_iff.mp h
    rfl
  · rw [integerDigits_of_ne h]
    exact takeWhile_append_drop isDigit cs

theorem isWhole_integerDigits (h : integerDigits cs ≠ []) : IsWhole (integerDigits cs) := by
  by_cases hzero : cs.head? = some '0'
  · obtain ⟨rest, rfl⟩ := List.head?_eq_some_iff.mp hzero
    exact Or.inl rfl
  · rw [integerDigits_of_ne hzero] at h ⊢
    refine Or.inr ⟨⟨h, fun c hc => List.mem_takeWhile_imp hc⟩, fun hhead => hzero ?_⟩
    rw [← takeWhile_append_drop isDigit cs, List.head?_append_of_ne_nil _ h, hhead]

/-- A long run of digits ends where the next character is none. -/
theorem head_drop_integerDigits (h : 1 < (integerDigits cs).length) :
    ∀ c ∈ (cs.drop (integerDigits cs).length).head?, isDigit c = false := by
  by_cases hzero : cs.head? = some '0'
  · obtain ⟨rest, rfl⟩ := List.head?_eq_some_iff.mp hzero
    simp [integerDigits] at h
  · rw [integerDigits_of_ne hzero]
    exact head_drop_takeWhile isDigit cs

theorem fractionDigits_append {fraction : List Char} (h : IsFraction fraction)
    (hrest : ∀ c ∈ rest.head?, isDigit c = false) :
    fractionDigits (fraction ++ rest) = fraction.tail := by
  obtain ⟨-, hdigits⟩ := h
  exact takeWhile_eq_of_head hdigits hrest

/-- The digits after a point make up a fraction. -/
theorem fractionDigits_sound (h : fractionDigits cs ≠ []) :
    IsFraction ('.' :: fractionDigits cs)
      ∧ cs = ('.' :: fractionDigits cs) ++ cs.drop (1 + (fractionDigits cs).length) := by
  unfold fractionDigits at h ⊢
  split
  next rest =>
    refine ⟨.mk ⟨h, fun c hc => List.mem_takeWhile_imp hc⟩, ?_⟩
    rw [Nat.add_comm, List.drop_succ_cons, List.cons_append, takeWhile_append_drop]
  next hno =>
    split at h
    next rest => exact absurd rfl (hno rest)
    next => simp at h

/-- No fraction starts a text after whose point no digit is found. -/
theorem not_isFraction_of_fractionDigits (h : fractionDigits cs = []) {front back : List Char}
    (heq : cs = front ++ back) : ¬IsFraction front := by
  rintro @⟨digits, hne, hdigits⟩
  obtain ⟨d, digits, rfl⟩ := List.exists_cons_of_ne_nil hne
  rw [heq] at h
  simp [fractionDigits, hdigits d (by simp)] at h

/-- The digits of an exponent are looked for behind its sign. -/
theorem exponentPart?_cons {e : Char} (he : e = 'e' ∨ e = 'E') {sign digits : List Char}
    (hsign : sign ∈ [[], ['+'], ['-']])
    (hdigits : sign = [] → ∀ c ∈ digits.head?, c ≠ '+' ∧ c ≠ '-') :
    (exponentPart? (e :: (sign ++ digits))).map Prod.snd
      = if digits.takeWhile isDigit = [] then none
        else some (1 + sign.length + (digits.takeWhile isDigit).length) := by
  have hletter : (decide (e = 'e') || decide (e = 'E')) = true := by simpa using he
  simp only [List.mem_cons, List.not_mem_nil, or_false] at hsign
  rcases hsign with rfl | rfl | rfl
  · rw [List.nil_append, exponentPart?, if_pos hletter]
    · cases digits.takeWhile isDigit <;> simp
    · rintro ds rfl
      simp at hdigits
    · rintro ds rfl
      simp at hdigits
  · rw [List.singleton_append, exponentPart?, if_pos hletter]
    cases digits.takeWhile isDigit <;> simp
  · rw [List.singleton_append, exponentPart?, if_pos hletter]
    cases digits.takeWhile isDigit <;> simp

/-- A text is a sign, if it starts with one, and what follows. -/
theorem exists_sign (cs : List Char) :
    ∃ sign rest, cs = sign ++ rest ∧ sign ∈ [[], ['+'], ['-']]
      ∧ (sign = [] → ∀ c ∈ rest.head?, c ≠ '+' ∧ c ≠ '-') := by
  by_cases h : ∃ c ∈ cs.head?, c = '+' ∨ c = '-'
  · obtain ⟨c, hhead, hc⟩ := h
    obtain ⟨rest, rfl⟩ := List.head?_eq_some_iff.mp hhead
    refine ⟨[c], rest, rfl, ?_, by simp⟩
    rcases hc with rfl | rfl <;> simp
  · exact ⟨[], cs, rfl, by simp, fun _ c hc => not_or.mp fun hsign => h ⟨c, hc, hsign⟩⟩

theorem AreDigits.no_sign {digits : List Char} (h : AreDigits digits) (rest : List Char) :
    ∀ c ∈ (digits ++ rest).head?, c ≠ '+' ∧ c ≠ '-' := by
  intro c hc
  rw [List.head?_append_of_ne_nil _ h.1] at hc
  have hdigit := h.2 c (List.mem_of_mem_head? hc)
  constructor <;> rintro rfl <;> exact absurd hdigit (by decide)

theorem exponentPart?_append {exponent : List Char} (h : IsExponent exponent)
    (hrest : ∀ c ∈ rest.head?, isDigit c = false) :
    (exponentPart? (exponent ++ rest)).map Prod.snd = some exponent.length := by
  obtain @⟨e, sign, digits, he, hsign, hdigits⟩ := h
  have htext : e :: (sign ++ digits) ++ rest = e :: (sign ++ (digits ++ rest)) := by simp
  rw [htext, exponentPart?_cons he hsign fun _ => hdigits.no_sign rest,
    takeWhile_eq_of_head hdigits.2 hrest, if_neg hdigits.1]
  simp
  omega

/-- What is taken for an exponent has the form of one. -/
theorem exponentPart?_sound {length : Nat}
    (h : (exponentPart? cs).map Prod.snd = some length) :
    ∃ front back, cs = front ++ back ∧ IsExponent front ∧ front.length = length := by
  cases cs with
  | nil => simp [exponentPart?] at h
  | cons e rest =>
    by_cases he : e = 'e' ∨ e = 'E'
    · obtain ⟨sign, digits, rfl, hsign, hdigits⟩ := exists_sign rest
      rw [exponentPart?_cons he hsign hdigits] at h
      split at h
      · simp at h
      next hne =>
        refine ⟨e :: (sign ++ digits.takeWhile isDigit),
          digits.drop (digits.takeWhile isDigit).length, ?_,
          .mk he hsign ⟨hne, fun c hc => List.mem_takeWhile_imp hc⟩, ?_⟩
        · rw [List.cons_append, List.append_assoc, takeWhile_append_drop]
        · have hlength := Option.some.inj h
          simp only [List.length_cons, List.length_append]
          omega
    · have hletter : (decide (e = 'e') || decide (e = 'E')) = false := by simpa using he
      simp [exponentPart?, hletter] at h

/-- No exponent starts a text in which none is found. -/
theorem not_isExponent_of_exponentPart? (h : exponentPart? cs = none) {front back : List Char}
    (heq : cs = front ++ back) : ¬IsExponent front := by
  rintro @⟨e, sign, digits, he, hsign, hdigits⟩
  have htext : e :: (sign ++ digits) ++ back = e :: (sign ++ (digits ++ back)) := by simp
  have hpart := exponentPart?_cons he hsign fun _ => hdigits.no_sign back
  obtain ⟨d, digits, rfl⟩ := List.exists_cons_of_ne_nil hdigits.1
  rw [← htext, ← heq, h] at hpart
  simp [hdigits.2 d (by simp)] at hpart

/-! ### Whole numbers -/

/-- The parts that the reader of numbers takes from a text. -/
structure TakesNumber (cs whole fraction exponent rest : List Char) : Prop where
  text : cs = whole ++ (fraction ++ (exponent ++ rest))
  whole_form : IsWhole whole
  fraction_form : fraction = [] ∨ IsFraction fraction
  exponent_form : exponent = [] ∨ IsExponent exponent
  whole_taken : integerDigits cs = whole
  fraction_taken : fractionDigits (fraction ++ (exponent ++ rest)) = fraction.tail
  exponent_taken : (exponentPart? (exponent ++ rest)).map Prod.snd
    = if exponent = [] then none else some exponent.length

theorem not_continues_of_head (h : ∀ c ∈ cs.head?, isDigit c = false ∧ c ≠ '.' ∧ c ≠ 'e' ∧ c ≠ 'E') :
    ¬Continues cs := by
  rintro ⟨front, back, rfl, hfront⟩
  have hhead : ∀ c more, front = c :: more → isDigit c = false ∧ c ≠ '.' ∧ c ≠ 'e' ∧ c ≠ 'E' := by
    rintro c more rfl
    exact h c (by simp)
  rcases hfront with ⟨hne, hdigits⟩ | @⟨digits, -⟩ | @⟨e, sign, digits, he, -, -⟩
  · obtain ⟨c, more, rfl⟩ := List.exists_cons_of_ne_nil hne
    simp [hdigits c (by simp)] at hhead
  · simp at hhead
  · have := hhead _ _ rfl
    tauto

theorem head_of_not_continues (h : ¬Continues rest) : ∀ c ∈ rest.head?, isDigit c = false := by
  intro c hc
  obtain ⟨more, rfl⟩ := List.head?_eq_some_iff.mp hc
  by_contra hdigit
  exact h ⟨[c], more, rfl, Or.inl ⟨by simp, by simpa using hdigit⟩⟩

theorem fractionDigits_of_not_continues (h : ¬Continues rest) : fractionDigits rest = [] := by
  by_contra hne
  obtain ⟨hform, htext⟩ := fractionDigits_sound hne
  exact h ⟨_, _, htext, Or.inr (Or.inl hform)⟩

theorem exponentPart?_of_not_continues (h : ¬Continues rest) : exponentPart? rest = none := by
  cases hpart : exponentPart? rest with
  | none => rfl
  | some part =>
    obtain ⟨front, back, heq, hfront, -⟩ := exponentPart?_sound (by rw [hpart, Option.map_some])
    exact absurd ⟨front, back, heq, Or.inr (Or.inr hfront)⟩ h

/-- Some parts are taken wherever a number starts. -/
theorem exists_takesNumber (h : integerDigits cs ≠ []) :
    ∃ whole fraction exponent rest, TakesNumber cs whole fraction exponent rest := by
  have hfraction : ∀ cs, ∃ fraction rest, cs = fraction ++ rest
      ∧ (fraction = [] ∨ IsFraction fraction) ∧ fractionDigits cs = fraction.tail := by
    intro cs
    by_cases hnone : fractionDigits cs = []
    · exact ⟨[], cs, rfl, Or.inl rfl, hnone⟩
    · obtain ⟨hform, htext⟩ := fractionDigits_sound hnone
      exact ⟨_, _, htext, Or.inr hform, rfl⟩
  have hexponent : ∀ cs, ∃ exponent rest, cs = exponent ++ rest
      ∧ (exponent = [] ∨ IsExponent exponent)
      ∧ (exponentPart? cs).map Prod.snd = if exponent = [] then none else some exponent.length := by
    intro cs
    cases hpart : (exponentPart? cs).map Prod.snd with
    | none => exact ⟨[], cs, rfl, Or.inl rfl, rfl⟩
    | some length =>
      obtain ⟨front, back, heq, hfront, rfl⟩ := exponentPart?_sound hpart
      refine ⟨front, back, heq, Or.inr hfront, (if_neg ?_).symm⟩
      cases hfront
      simp
  have hwhole := integerDigits_append_drop cs
  obtain ⟨fraction, afterFraction, hfractionText, hfractionForm, hfractionTaken⟩ :=
    hfraction (cs.drop (integerDigits cs).length)
  obtain ⟨exponent, rest, rfl, hexponentForm, hexponentTaken⟩ := hexponent afterFraction
  rw [hfractionText] at hwhole hfractionTaken
  exact ⟨_, fraction, exponent, rest, hwhole.symm, isWhole_integerDigits h, hfractionForm,
    hexponentForm, rfl, hfractionTaken, hexponentTaken⟩

/-- The parts of a number are taken when nothing continues it. -/
theorem takesNumber_of_not_continues {whole fraction exponent : List Char}
    (hwhole : IsWhole whole) (hfraction : fraction = [] ∨ IsFraction fraction)
    (hexponent : exponent = [] ∨ IsExponent exponent) (hrest : ¬Continues rest) :
    TakesNumber (whole ++ (fraction ++ (exponent ++ rest))) whole fraction exponent rest := by
  have hletter : ∀ e, e = 'e' ∨ e = 'E' → isDigit e = false ∧ e ≠ '.' := by
    rintro e (rfl | rfl) <;> decide
  have hafter : ∀ c ∈ (exponent ++ rest).head?, isDigit c = false := by
    rcases hexponent with rfl | @⟨e, sign, digits, he, -, -⟩
    · exact head_of_not_continues hrest
    · simpa using (hletter e he).1
  have hafterWhole : ∀ c ∈ (fraction ++ (exponent ++ rest)).head?, isDigit c = false := by
    rcases hfraction with rfl | @⟨digits, -⟩
    · exact hafter
    · simp [isDigit]
  refine ⟨rfl, hwhole, hfraction, hexponent, integerDigits_append hwhole hafterWhole, ?_, ?_⟩
  · rcases hfraction with rfl | hfraction
    · rcases hexponent with rfl | @⟨e, sign, digits, he, -, -⟩
      · exact fractionDigits_of_not_continues hrest
      · have hpoint := (hletter e he).2
        simp [fractionDigits, hpoint]
    · exact fractionDigits_append hfraction hafter
  · rcases hexponent with rfl | hexponent
    · simp [exponentPart?_of_not_continues hrest]
    · rw [exponentPart?_append hexponent (head_of_not_continues hrest), if_neg]
      cases hexponent
      simp

/-- What is read of a number, or that it is an integer which is too long. -/
theorem TakesNumber.read {c : Cursor} {whole fraction exponent : List Char}
    (h : TakesNumber c.rest whole fraction exponent rest) (start : Cursor) (negative : Bool) :
    if fraction = [] ∧ exponent = [] ∧ Numeral.maxDigits < whole.length then
      numberFrom start negative c = .error (.tooManyDigits whole.length)
    else ∃ v c', numberFrom start negative c = .ok (v, c') ∧ c'.rest = rest := by
  have hwhole : (integerDigits c.rest).isEmpty = false := by
    simpa [h.whole_taken] using h.whole_form.ne_nil
  have hafter : (c.advance (integerDigits c.rest).length).rest = fraction ++ (exponent ++ rest) := by
    rw [rest_advance, h.whole_taken, h.text, List.drop_left]
  have hfraction : fractionDigits (c.advance (integerDigits c.rest).length).rest = fraction.tail := by
    rw [hafter, h.fraction_taken]
  have hempty : fraction.tail.isEmpty = decide (fraction = []) := by
    rcases h.fraction_form with rfl | @⟨digits, hne, -⟩
    · rfl
    · simpa using hne
  have hafterFraction : (if decide (fraction = []) = true then
        c.advance (integerDigits c.rest).length
      else (c.advance (integerDigits c.rest).length).advance (1 + fraction.tail.length)).rest
        = exponent ++ rest := by
    rcases h.fraction_form with rfl | @⟨digits, -⟩
    · exact hafter
    · rw [if_neg (by simp), rest_advance, hafter, Nat.add_comm]
      simp
  have hexponent := h.exponent_taken
  simp only [numberFrom, hwhole, Bool.false_eq_true, if_false, hfraction, hempty]
  generalize (if decide (fraction = []) = true then _ else _ : Cursor) = c₂ at hafterFraction ⊢
  rw [hafterFraction]
  cases hpart : exponentPart? (exponent ++ rest) with
  | none =>
    have hnone : exponent = [] := by
      rw [hpart] at hexponent
      by_contra hne
      simp [hne] at hexponent
    subst hnone
    by_cases hwholeOnly : fraction = []
    · simp only [hwholeOnly, decide_true, true_and, h.whole_taken]
      by_cases hlong : Numeral.maxDigits < whole.length
      · rw [if_pos hlong, if_pos hlong]
      · rw [if_neg hlong, if_neg hlong]
        exact ⟨_, _, rfl, hafterFraction⟩
    · simp only [hwholeOnly, decide_false, false_and, if_false]
      exact ⟨_, _, rfl, hafterFraction⟩
  | some part =>
    rw [hpart, Option.map_some] at hexponent
    have hsome : exponent ≠ [] := by
      rintro rfl
      simp at hexponent
    rw [if_neg hsome, Option.some.injEq] at hexponent
    simp only [hsome, false_and, and_false, if_false]
    refine ⟨_, _, rfl, ?_⟩
    rw [rest_advance, hafterFraction, Option.getD_some, hexponent, List.drop_left]

/-- A number without its sign, when it can be read: an integer has no more digits than are read. -/
inductive IsUnsigned : List Char → Prop
  | mk {whole fraction exponent : List Char} (hwhole : IsWhole whole)
      (hfraction : fraction = [] ∨ IsFraction fraction)
      (hexponent : exponent = [] ∨ IsExponent exponent)
      (hshort : fraction = [] → exponent = [] → whole.length ≤ Numeral.maxDigits) :
    IsUnsigned (whole ++ (fraction ++ exponent))

/-- An integer without its sign starts the text, and has more digits than are read. -/
inductive IsTooLong (n : Nat) : List Char → Prop
  | mk {whole rest : List Char} (hwhole : IsWhole whole) (hlength : whole.length = n)
      (hlong : Numeral.maxDigits < n) (hrest : ¬Continues rest) : IsTooLong n (whole ++ rest)

variable {start c c' : Cursor} {negative : Bool} {v : Json} {n : Nat} {front : List Char}

theorem numberFrom_fail (h : integerDigits c.rest = []) :
    numberFrom start negative c = start.fail .expectingValue := by
  simp [numberFrom, h]

theorem numberFrom_sound (h : numberFrom start negative c = .ok (v, c')) :
    ∃ front, c.rest = front ++ c'.rest ∧ IsUnsigned front := by
  by_cases hnone : integerDigits c.rest = []
  · simp [numberFrom_fail hnone, Cursor.fail] at h
  · obtain ⟨whole, fraction, exponent, rest, htakes⟩ := exists_takesNumber hnone
    have hread := htakes.read start negative
    split at hread
    · simp [hread] at h
    next hshort =>
      obtain ⟨w, c₁, hok, rfl⟩ := hread
      obtain ⟨-, rfl⟩ := Prod.mk.inj (Except.ok.inj (hok.symm.trans h))
      refine ⟨whole ++ (fraction ++ exponent), by simp [htakes.text], .mk htakes.whole_form
        htakes.fraction_form htakes.exponent_form fun hf he => ?_⟩
      by_contra hlong
      exact hshort ⟨hf, he, by omega⟩

theorem isTooLong_of_numberFrom (h : numberFrom start negative c = .error (.tooManyDigits n)) :
    IsTooLong n c.rest := by
  by_cases hnone : integerDigits c.rest = []
  · simp [numberFrom_fail hnone, Cursor.fail] at h
  · obtain ⟨whole, fraction, exponent, rest, htakes⟩ := exists_takesNumber hnone
    have hread := htakes.read start negative
    split at hread
    next hlong =>
      obtain ⟨rfl, rfl, hlong⟩ := hlong
      obtain rfl : whole.length = n := by simpa [hread] using h
      have htext : c.rest = whole ++ rest := by simp [htakes.text]
      have hdigits : ∀ x ∈ rest.head?, isDigit x = false := by
        have hmany : 1 < (integerDigits c.rest).length := by
          rw [htakes.whole_taken]
          exact lt_of_le_of_lt (by decide) hlong
        have hhead := head_drop_integerDigits hmany
        rwa [htakes.whole_taken, htext, List.drop_left] at hhead
      rw [htext]
      refine .mk htakes.whole_form rfl hlong ?_
      rintro ⟨more, back, rfl, ⟨hne, hmore⟩ | hmore | hmore⟩
      · -- a long run of digits was taken to its end
        obtain ⟨d, more, rfl⟩ := List.exists_cons_of_ne_nil hne
        simp [hmore d (by simp)] at hdigits
      · have hnone : fractionDigits (more ++ back) = [] := htakes.fraction_taken
        exact not_isFraction_of_fractionDigits hnone rfl hmore
      · have hnone : exponentPart? (more ++ back) = none := by simpa using htakes.exponent_taken
        exact not_isExponent_of_exponentPart? hnone rfl hmore
    next =>
      obtain ⟨w, c₁, hok, -⟩ := hread
      simp [hok] at h

theorem numberFrom_complete (h : IsUnsigned front) (hc : c.rest = front ++ rest)
    (hrest : ¬Continues rest) (start : Cursor) (negative : Bool) :
    ∃ v c', numberFrom start negative c = .ok (v, c') ∧ c'.rest = rest := by
  obtain ⟨hwhole, hfraction, hexponent, hshort⟩ := h
  have htakes := takesNumber_of_not_continues hwhole hfraction hexponent hrest
  simp only [List.append_assoc] at hc
  rw [← hc] at htakes
  have hread := htakes.read start negative
  rwa [if_neg] at hread
  rintro ⟨hf, he, hlong⟩
  exact absurd (hshort hf he) (by omega)

theorem numberFrom_of_isTooLong (h : IsTooLong n c.rest) (start : Cursor) (negative : Bool) :
    numberFrom start negative c = .error (.tooManyDigits n) := by
  generalize hc : c.rest = cs at h
  obtain ⟨hwhole, rfl, hlong, hrest⟩ := h
  have htakes := takesNumber_of_not_continues hwhole (Or.inl rfl) (Or.inl rfl) hrest
  simp only [List.nil_append] at htakes
  rw [← hc] at htakes
  have hread := htakes.read start negative
  rwa [if_pos ⟨rfl, rfl, hlong⟩] at hread

/-! ### Scalars -/

/-- A minus may stand before. -/
def Signed (P : List Char → Prop) (cs : List Char) : Prop := P cs ∨ ∃ rest, cs = '-' :: rest ∧ P rest

/-- The words that stand for values. -/
def words : List String := ["null", "true", "false", "NaN", "Infinity", "-Infinity"]

/-- A value that is neither a string, an array nor an object. -/
def IsScalar (cs : List Char) : Prop := (∃ w ∈ words, cs = w.toList) ∨ Signed IsUnsigned cs

theorem word?_sound (h : word? c = some (v, c')) : ∃ w ∈ words, c.rest = w.toList ++ c'.rest := by
  obtain ⟨⟨w, found⟩, hmem, hfound⟩ := List.exists_of_findSome?_eq_some h
  obtain ⟨rest, hrest, heq⟩ := Option.map_eq_some_iff.mp hfound
  obtain ⟨-, rfl⟩ := Prod.mk.inj heq
  refine ⟨w, ?_, Text.dropStart?_eq_some_iff.mp hrest⟩
  simp only [List.mem_cons, Prod.mk.injEq, List.not_mem_nil, or_false] at hmem
  rcases hmem with ⟨rfl, -⟩ | ⟨rfl, -⟩ | ⟨rfl, -⟩ | ⟨rfl, -⟩ | ⟨rfl, -⟩ | ⟨rfl, -⟩ <;> simp [words]

theorem word?_complete {w : String} (hw : w ∈ words) (hc : c.rest = w.toList ++ rest) :
    ∃ v c', word? c = some (v, c') ∧ c'.rest = rest := by
  simp only [words, List.mem_cons, List.not_mem_nil, or_false] at hw
  rcases hw with rfl | rfl | rfl | rfl | rfl | rfl <;>
    simp [word?, hc, Text.dropStart?]

/-- No word starts as a number does. -/
theorem word?_of_signed_digit (h : Signed (fun cs => ∃ d ∈ cs.head?, isDigit d = true) c.rest) :
    word? c = none := by
  cases hword : word? c with
  | none => rfl
  | some found =>
    obtain ⟨w, hw, hc⟩ := word?_sound hword
    rw [hc] at h
    simp only [words, List.mem_cons, List.not_mem_nil, or_false] at hw
    rcases hw with rfl | rfl | rfl | rfl | rfl | rfl <;> simp [Signed, isDigit] at h

theorem IsWhole.digit_head {whole : List Char} (h : IsWhole whole) (rest : List Char) :
    ∃ d ∈ (whole ++ rest).head?, isDigit d = true := by
  rcases h with rfl | ⟨⟨hne, hdigits⟩, -⟩
  · exact ⟨'0', rfl, by decide⟩
  · obtain ⟨d, whole, rfl⟩ := List.exists_cons_of_ne_nil hne
    exact ⟨d, rfl, hdigits d (by simp)⟩

theorem IsUnsigned.digit_head (h : IsUnsigned front) (rest : List Char) :
    ∃ d ∈ (front ++ rest).head?, isDigit d = true := by
  obtain ⟨hwhole, -, -, -⟩ := h
  rw [List.append_assoc]
  exact hwhole.digit_head _

theorem IsTooLong.digit_head (h : IsTooLong n cs) : ∃ d ∈ cs.head?, isDigit d = true := by
  obtain ⟨hwhole, -, -, -⟩ := h
  exact hwhole.digit_head _

/-- Where a number starts, no word is read, and a minus is its sign. -/
theorem scalar_of_signed {P : List Char → Prop}
    (hdigit : ∀ cs, P cs → ∃ d ∈ cs.head?, isDigit d = true) (h : Signed P c.rest) :
    P c.rest ∧ scalar c = numberFrom c false c
      ∨ P (c.advance 1).rest ∧ scalar c = numberFrom c true (c.advance 1) := by
  have hword : word? c = none := by
    refine word?_of_signed_digit ?_
    rcases h with h | ⟨rest, hc, hrest⟩
    · exact Or.inl (hdigit _ h)
    · exact Or.inr ⟨rest, hc, hdigit _ hrest⟩
  rw [scalar, hword]
  simp only
  rcases h with h | ⟨rest, hc, hrest⟩
  · refine Or.inl ⟨h, ?_⟩
    obtain ⟨d, hd, hvalue⟩ := hdigit _ h
    split
    next hc =>
      rw [hc] at hd
      obtain rfl := Option.some.inj hd
      exact absurd hvalue (by decide)
    next => rfl
  · exact Or.inr ⟨(rest_advance_one hc).symm ▸ hrest, by simp [hc]⟩

theorem scalar_sound (h : scalar c = .ok (v, c')) :
    ∃ front, c.rest = front ++ c'.rest ∧ IsScalar front := by
  rw [scalar] at h
  split at h
  next found hword =>
    obtain rfl := Except.ok.inj h
    obtain ⟨w, hw, hc⟩ := word?_sound hword
    exact ⟨_, hc, Or.inl ⟨w, hw, rfl⟩⟩
  next =>
    split at h
    next rest hc =>
      obtain ⟨front, hrest, hfront⟩ := numberFrom_sound h
      rw [rest_advance_one hc] at hrest
      exact ⟨'-' :: front, by rw [hc, hrest]; rfl, Or.inr (Or.inr ⟨front, rfl, hfront⟩)⟩
    next =>
      obtain ⟨front, hrest, hfront⟩ := numberFrom_sound h
      exact ⟨front, hrest, Or.inr (Or.inl hfront)⟩

theorem isTooLong_of_scalar (h : scalar c = .error (.tooManyDigits n)) :
    Signed (IsTooLong n) c.rest := by
  rw [scalar] at h
  split at h
  · simp at h
  · split at h
    next rest hc =>
      have hlong := isTooLong_of_numberFrom h
      rw [rest_advance_one hc] at hlong
      exact Or.inr ⟨rest, hc, hlong⟩
    next => exact Or.inl (isTooLong_of_numberFrom h)

theorem scalar_complete (h : IsScalar front) (hc : c.rest = front ++ rest) (hrest : ¬Continues rest) :
    ∃ v c', scalar c = .ok (v, c') ∧ c'.rest = rest := by
  rcases h with ⟨w, hw, rfl⟩ | hsigned
  · obtain ⟨v, c', hword, hc'⟩ := word?_complete hw hc
    exact ⟨v, c', by rw [scalar, hword], hc'⟩
  · have hnumber : Signed (fun cs => ∃ number, cs = number ++ rest ∧ IsUnsigned number) c.rest := by
      rcases hsigned with h | ⟨number, hfront, h⟩
      · exact Or.inl ⟨front, hc, h⟩
      · exact Or.inr ⟨number ++ rest, by rw [hc, hfront]; rfl, number, rfl, h⟩
    have hdigit : ∀ cs, (∃ number, cs = number ++ rest ∧ IsUnsigned number) →
        ∃ d ∈ cs.head?, isDigit d = true := by
      rintro _ ⟨number, rfl, h⟩
      exact h.digit_head rest
    rcases scalar_of_signed hdigit hnumber with ⟨⟨number, hc, h⟩, heq⟩ | ⟨⟨number, hc, h⟩, heq⟩
    · exact heq ▸ numberFrom_complete h hc hrest _ _
    · exact heq ▸ numberFrom_complete h hc hrest _ _

theorem scalar_of_isTooLong (h : Signed (IsTooLong n) c.rest) :
    scalar c = .error (.tooManyDigits n) := by
  rcases scalar_of_signed (fun _ => IsTooLong.digit_head) h with ⟨h, heq⟩ | ⟨h, heq⟩
  · exact heq ▸ numberFrom_of_isTooLong h _ _
  · exact heq ▸ numberFrom_of_isTooLong h _ _

end PackageLint.Json
