import PackageLint.Json.Printer
import PackageLint.Proofs.JsonTokens

/-!
# Quoted texts are read back

Between its quotes, a text is written one character after the other: as it is, as a short escape, or by
its code units, of which there are two above the first plane. Read as a JSON string, it is the text again,
up to the quote that closes it. Hence nothing is lost by quoting a text, and nothing that follows a quoted
text can be taken for a part of it.

## Main definitions

* `Json.Spells` — a part of a string that is read as one character

## Main results

* `Json.spells_quoteChar` — what is written for a character is read as this character
* `Json.stringFrom_quoted` — a quoted text is read back
* `Json.quoteChars_append_inj` — a quoted text is known from any text that starts with it
-/

namespace PackageLint

/-! ### Hexadecimal numbers -/

namespace Text

theorem hexValue?_hexDigit {n : Nat} (h : n < 16) : hexValue? (hexDigit n) = some n := by
  decide +revert

/-- The digits that are written of a number are those of its remainder. -/
theorem hexNumber?_hexDigits (count n : Nat) :
    hexNumber? (hexDigits count n) = some (n % 16 ^ count) := by
  induction count generalizing n with
  | zero => simp [hexDigits, hexNumber?, Nat.mod_one]
  | succ count ih =>
    have hlast : hexValue? (hexDigit (n % 16)) = some (n % 16) :=
      hexValue?_hexDigit (Nat.mod_lt n (by decide))
    have hfront := ih (n / 16)
    rw [hexNumber?] at hfront
    rw [hexDigits, hexNumber?, List.foldlM_append, hfront, pow_succ', Nat.mod_mul]
    simp [hlast, Nat.add_comm]

end Text

namespace Json

variable {c : Char} {text rest : List Char}

/-! ### Characters -/

/-- Wherever it stands in a string, a text is read as one character. -/
def Spells (text : List Char) (c : Char) : Prop :=
  ∃ pieces : List Piece,
    (∀ more, charsOfPieces (pieces ++ more) = c :: charsOfPieces more)
      ∧ ∀ start position acc rest, rest ≠ [] →
          stringFrom start position acc (text ++ rest)
            = stringFrom start (position + text.length) (pieces.reverse ++ acc) rest

theorem spells_self (hquote : c ≠ '"') (hslash : c ≠ '\\') (hc : 0x20 ≤ c.toNat) : Spells [c] c :=
  ⟨[.char c], fun _ => by simp [charsOfPieces],
    fun _ _ _ _ _ => stringFrom_char hquote hslash hc⟩

theorem spells_escape {letter : Char} (h : simpleEscape? letter = some c) :
    Spells ['\\', letter] c :=
  ⟨[.char c], fun _ => by simp [charsOfPieces], fun _ _ _ _ _ => stringFrom_escape h⟩

theorem stringFrom_unitEscape {start position unit : Nat} {acc : List Piece} (hunit : unit < 0x10000)
    (hrest : rest ≠ []) :
    stringFrom start position acc (unitEscape unit ++ rest)
      = stringFrom start (position + 6) (.unit unit :: acc) rest := by
  have hvalue := Text.hexNumber?_hexDigits 4 unit
  rw [Nat.mod_eq_of_lt (by omega)] at hvalue
  exact stringFrom_unit hvalue hrest

/-- No character is half of a pair. -/
theorem not_surrogate (c : Char) :
    isHighSurrogate c.toNat = false ∧ isLowSurrogate c.toNat = false := by
  have hvalid := c.valid
  simp only [UInt32.isValidChar, Nat.isValidChar] at hvalid
  simp only [isHighSurrogate, isLowSurrogate, Char.toNat, Bool.and_eq_false_iff,
    decide_eq_false_iff_not]
  omega

theorem spells_charEscape (c : Char) : Spells (charEscape c) c := by
  rw [charEscape]
  split
  next hlow =>
    obtain ⟨hhigh, hclose⟩ := not_surrogate c
    refine ⟨[.unit c.toNat], fun more => ?_, fun _ _ _ _ hrest => stringFrom_unitEscape hlow hrest⟩
    have hunit : charOfUnit c.toNat = c := by simp [charOfUnit, hhigh, hclose]
    -- what follows is never taken for the second half, since this is not the first
    cases more with
    | nil => simp [charsOfPieces, hunit]
    | cons piece more => cases piece <;> simp [charsOfPieces, hunit, hhigh]
  next hlow =>
    have hc : c.toNat < 0x110000 := by
      have hvalid := c.valid
      simp only [UInt32.isValidChar, Nat.isValidChar] at hvalid
      simp only [Char.toNat]
      omega
    let n := c.toNat - 0x10000
    have hhigh : isHighSurrogate (0xd800 + n / 0x400) = true := by
      simp only [isHighSurrogate, Bool.and_eq_true, decide_eq_true_eq]
      omega
    have hclose : isLowSurrogate (0xdc00 + n % 0x400) = true := by
      simp only [isLowSurrogate, Bool.and_eq_true, decide_eq_true_eq]
      omega
    have hpair : charOfPair (0xd800 + n / 0x400) (0xdc00 + n % 0x400) = c := by
      have hnumber : 0x10000 + (0xd800 + n / 0x400 - 0xd800) * 0x400 + (0xdc00 + n % 0x400 - 0xdc00)
          = c.toNat := by omega
      rw [charOfPair, hnumber, Char.ofNat_toNat]
    refine ⟨[.unit (0xd800 + n / 0x400), .unit (0xdc00 + n % 0x400)],
      fun more => by simp [charsOfPieces, hhigh, hclose, hpair], fun start position acc rest hrest => ?_⟩
    rw [List.append_assoc, stringFrom_unitEscape (by omega) (by simp [unitEscape]),
      stringFrom_unitEscape (by omega) hrest]
    rfl

/-- What is written for a character is read as this character. -/
theorem spells_quoteChar (ascii : Bool) (c : Char) : Spells (quoteChar ascii c) c := by
  rw [quoteChar]
  split_ifs with hquote hslash hfeed hreturn htab hback hform hcontrol hascii
  · exact spells_escape (by rw [hquote]; rfl)
  · exact spells_escape (by rw [hslash]; rfl)
  · exact spells_escape (by rw [hfeed]; rfl)
  · exact spells_escape (by rw [hreturn]; rfl)
  · exact spells_escape (by rw [htab]; rfl)
  · exact spells_escape (by rw [hback]; rfl)
  · exact spells_escape (by rw [hform]; rfl)
  · have hunit : charEscape c = unitEscape c.toNat := by rw [charEscape, if_pos (by omega)]
    exact hunit ▸ spells_charEscape c
  · exact spells_charEscape c
  · exact spells_self hquote hslash (by omega)

/-! ### Texts -/

/-- Characters that are spelled one after the other are read one after the other. -/
theorem stringFrom_spelled {spelling : Char → List Char} (h : ∀ c, Spells (spelling c) c)
    (cs : List Char) :
    ∃ pieces, charsOfPieces pieces = cs
      ∧ ∀ start position acc rest, rest ≠ [] →
          stringFrom start position acc (cs.flatMap spelling ++ rest)
            = stringFrom start (position + (cs.flatMap spelling).length) (pieces.reverse ++ acc)
                rest := by
  induction cs with
  | nil => exact ⟨[], rfl, fun _ _ _ _ _ => rfl⟩
  | cons c cs ih =>
    obtain ⟨pieces, hpieces, hcs⟩ := ih
    obtain ⟨first, hfirst, hc⟩ := h c
    refine ⟨first ++ pieces, by rw [hfirst, hpieces], fun start position acc rest hrest => ?_⟩
    rw [List.flatMap_cons, List.append_assoc, hc _ _ _ _ (List.append_ne_nil_of_right_ne_nil _ hrest),
      hcs _ _ _ _ hrest]
    simp [Nat.add_assoc]

/-- A quoted text is read back, up to the quote that closes it. -/
theorem stringFrom_quoted (ascii : Bool) (cs rest : List Char) (start position : Nat) :
    stringFrom start position [] (cs.flatMap (quoteChar ascii) ++ '"' :: rest)
      = .ok (String.ofList cs,
          { rest, position := position + (cs.flatMap (quoteChar ascii)).length + 1 }) := by
  obtain ⟨pieces, rfl, hread⟩ := stringFrom_spelled (spells_quoteChar ascii) cs
  rw [hread _ _ _ _ (List.cons_ne_nil _ _), stringFrom, stringOfPieces]
  simp

/-- A quoted text is known from any text that starts with it, and so is what follows. -/
theorem quoteChars_append_inj {ascii : Bool} {cs ds s t : List Char}
    (h : quoteChars ascii cs ++ s = quoteChars ascii ds ++ t) : cs = ds ∧ s = t := by
  have hread : ∀ cs s, quoteChars ascii cs ++ s
      = '"' :: (cs.flatMap (quoteChar ascii) ++ '"' :: s) := fun cs s => by simp [quoteChars]
  rw [hread, hread] at h
  have hcs := stringFrom_quoted ascii cs s 0 1
  rw [(List.cons.inj h).2, stringFrom_quoted] at hcs
  obtain ⟨htext, hrest⟩ := Prod.mk.inj (Except.ok.inj hcs)
  exact ⟨(String.ofList_injective htext).symm, (Cursor.mk.inj hrest).1.symm⟩

end Json

end PackageLint
