import PackageLint.Proofs.JsonTokens

/-!
# Which texts are JSON

The grammar of the texts that the reader takes, and of those at which it gives up for the length of an
integer. The second is no part of the syntax: such a text may well be JSON, and what comes after the
integer is never looked at. So there are three kinds of texts, and the reader tells them apart exactly.

## Bounds

The reader counts its nested readings down from a bound. Every nested reading takes a character, which
is why twice the length of a text is always enough; the readers of items and of fields hand the whole
of their text on, and need one more.

## Main definitions

* `Json.IsText` — the forms of values, and of the rests of arrays and objects
* `Json.IsCut` — the texts in which the reader meets an integer that is too long
* `Json.IsDocument`, `Json.IsObjectDocument`, `Json.IsCutDocument` — the same for whole texts

## Main results

* `Json.takesForms`, `Json.IsText.reads` — the readers take exactly the forms
* `Json.stopsAtCuts`, `Json.IsCut.givesUp` — they stop exactly at integers that are too long
* `Json.parseChars_ok_iff`, `Json.parseChars_object_iff`, `Json.parseChars_tooManyDigits_iff` — whole
  texts
-/

namespace PackageLint.Json

/-! ### The grammar -/

/-- What is read at a place: a value, or the rest of an array or an object after its bracket. -/
inductive Part where
  | value
  | items
  | fields

/-- The name of a field with its colon and the blanks around that. -/
inductive IsName : List Char → Prop
  | mk {body s s' : List Char} (hbody : IsStringEnd body) (hs : AreSpaces s) (hs' : AreSpaces s') :
    IsName ('"' :: (body ++ (s ++ ':' :: s')))

/-- The texts that the reader takes for a part. Those of items and of fields end with the closing
bracket. -/
inductive IsText : Part → List Char → Prop
  | scalar {cs : List Char} (h : IsScalar cs) : IsText .value cs
  | string {cs : List Char} (h : IsStringEnd cs) : IsText .value ('"' :: cs)
  | noItems {s : List Char} (hs : AreSpaces s) : IsText .value ('[' :: (s ++ [']']))
  | array {s cs : List Char} (hs : AreSpaces s) (h : IsText .items cs) : IsText .value ('[' :: (s ++ cs))
  | noFields {s : List Char} (hs : AreSpaces s) : IsText .value ('\x7b' :: (s ++ ['\x7d']))
  | object {s cs : List Char} (hs : AreSpaces s) (h : IsText .fields cs) :
    IsText .value ('\x7b' :: (s ++ cs))
  | lastItem {v s : List Char} (hv : IsText .value v) (hs : AreSpaces s) :
    IsText .items (v ++ (s ++ [']']))
  | item {v s s' cs : List Char} (hv : IsText .value v) (hs : AreSpaces s) (hs' : AreSpaces s')
      (h : IsText .items cs) : IsText .items (v ++ (s ++ ',' :: (s' ++ cs)))
  | lastField {name v s : List Char} (hname : IsName name) (hv : IsText .value v) (hs : AreSpaces s) :
    IsText .fields (name ++ (v ++ (s ++ ['\x7d'])))
  | field {name v s s' cs : List Char} (hname : IsName name) (hv : IsText .value v)
      (hs : AreSpaces s) (hs' : AreSpaces s') (h : IsText .fields cs) :
    IsText .fields (name ++ (v ++ (s ++ ',' :: (s' ++ cs))))

/-- The texts in which the reader of a part meets an integer of too many digits, before anything that
breaks the grammar. -/
inductive IsCut (n : Nat) : Part → List Char → Prop
  | integer {cs : List Char} (h : Signed (IsTooLong n) cs) : IsCut n .value cs
  | array {s cs : List Char} (hs : AreSpaces s) (h : IsCut n .items cs) :
    IsCut n .value ('[' :: (s ++ cs))
  | object {s cs : List Char} (hs : AreSpaces s) (h : IsCut n .fields cs) :
    IsCut n .value ('\x7b' :: (s ++ cs))
  | inItem {cs : List Char} (h : IsCut n .value cs) : IsCut n .items cs
  | laterItem {v s s' cs : List Char} (hv : IsText .value v) (hs : AreSpaces s) (hs' : AreSpaces s')
      (h : IsCut n .items cs) : IsCut n .items (v ++ (s ++ ',' :: (s' ++ cs)))
  | inField {name cs : List Char} (hname : IsName name) (h : IsCut n .value cs) :
    IsCut n .fields (name ++ cs)
  | laterField {name v s s' cs : List Char} (hname : IsName name) (hv : IsText .value v)
      (hs : AreSpaces s) (hs' : AreSpaces s') (h : IsCut n .fields cs) :
    IsCut n .fields (name ++ (v ++ (s ++ ',' :: (s' ++ cs))))

/-! ### Names -/

variable {c c' : Cursor} {rest cs : List Char} {v : Json} {n bound : Nat} {name : String}

theorem nameFrom_sound (h : nameFrom c = .ok (name, c')) :
    ∃ front, c.rest = front ++ c'.rest ∧ IsName front := by
  rw [nameFrom] at h
  split at h
  next body hc =>
    obtain ⟨⟨s, c₁⟩, hstring, hread⟩ := except_bind_eq_ok.mp h
    obtain ⟨front, rfl, hfront⟩ := stringFrom_sound hstring
    obtain ⟨s, hs, hrest⟩ := exists_spaces c₁
    simp only at hread
    split at hread
    next after hcolon =>
      obtain ⟨-, rfl⟩ := Prod.mk.inj (Except.ok.inj hread)
      obtain ⟨s', hs', hafter⟩ := exists_spaces (c₁.skipSpace.advance 1)
      refine ⟨_, ?_, .mk hfront hs hs'⟩
      rw [rest_advance_one hcolon] at hafter
      rw [hc, hrest, hcolon, hafter]
      simp
    next => simp [Cursor.fail] at hread
  next => simp [Cursor.fail] at h

theorem nameFrom_ne_tooManyDigits : nameFrom c ≠ .error (.tooManyDigits n) := by
  intro h
  rw [nameFrom] at h
  split at h
  · rcases except_bind_eq_error.mp h with h | ⟨found, -, h⟩
    · exact stringFrom_ne_tooManyDigits h
    · simp only at h
      split at h <;> simp [pure, Except.pure, Cursor.fail] at h
  · simp [Cursor.fail] at h

/-- A name is read up to what follows the blanks after its colon. -/
theorem nameFrom_complete {front : List Char} (h : IsName front) (hc : c.rest = front ++ rest)
    (hrest : ∀ x ∈ rest.head?, isSpace x = false) :
    ∃ name c', nameFrom c = .ok (name, c') ∧ c'.rest = rest := by
  obtain @⟨body, s, s', hbody, hs, hs'⟩ := h
  simp only [List.cons_append, List.append_assoc] at hc
  obtain ⟨name, c₁, hstring, hc₁⟩ := stringFrom_complete hbody c.position (c.position + 1) []
    (s ++ (':' :: (s' ++ rest)))
  have hcolon : c₁.skipSpace.rest = ':' :: (s' ++ rest) :=
    rest_skipSpace_of_append hs (by simp [isSpace]) hc₁
  have hafter : (c₁.skipSpace.advance 1).skipSpace.rest = rest :=
    rest_skipSpace_of_append hs' hrest (by simp [hcolon])
  refine ⟨name, (c₁.skipSpace.advance 1).skipSpace, ?_, hafter⟩
  rw [nameFrom, hc]
  simp only [hstring, hcolon, bind, Except.bind, pure, Except.pure]

/-! ### How texts start -/

/-- Scalars start with such a character. -/
def StartsScalar (x : Char) : Prop := isDigit x = true ∨ x ∈ ['-', 'n', 't', 'f', 'N', 'I']

/-- The texts of all parts start with such a character. -/
def Opens (x : Char) : Prop := isSpace x = false ∧ x ∉ [']', '\x7d', '\uFEFF']

theorem StartsScalar.opens {x : Char} (h : StartsScalar x) : Opens x ∧ x ∉ ['"', '[', '\x7b'] := by
  simp only [StartsScalar, List.mem_cons, List.not_mem_nil, or_false] at h
  rcases h with h | rfl | rfl | rfl | rfl | rfl | rfl
  · refine ⟨⟨?_, ?_⟩, ?_⟩
    · by_contra hspace
      simp only [isSpace, Bool.or_eq_true, decide_eq_true_eq, Bool.not_eq_false, or_assoc] at hspace
      rcases hspace with rfl | rfl | rfl | rfl <;> exact absurd h (by decide)
    · simp only [List.mem_cons, List.not_mem_nil, or_false]
      rintro (rfl | rfl | rfl) <;> exact absurd h (by decide)
    · simp only [List.mem_cons, List.not_mem_nil, or_false]
      rintro (rfl | rfl | rfl) <;> exact absurd h (by decide)
  all_goals simp [Opens, isSpace]

theorem head_append {P : Char → Prop} (h : ∃ x ∈ cs.head?, P x) (rest : List Char) :
    ∃ x ∈ (cs ++ rest).head?, P x := by
  obtain ⟨x, hx, hP⟩ := h
  obtain ⟨more, rfl⟩ := List.head?_eq_some_iff.mp hx
  exact ⟨x, rfl, hP⟩

theorem IsScalar.head (h : IsScalar cs) : ∃ x ∈ cs.head?, StartsScalar x := by
  rcases h with ⟨w, hw, rfl⟩ | h | ⟨rest, rfl, -⟩
  · simp only [words, List.mem_cons, List.not_mem_nil, or_false] at hw
    rcases hw with rfl | rfl | rfl | rfl | rfl | rfl <;> simp [StartsScalar]
  · obtain ⟨x, hx, hdigit⟩ := h.digit_head []
    exact ⟨x, by simpa using hx, Or.inl hdigit⟩
  · exact ⟨'-', rfl, Or.inr (by simp)⟩

theorem startsScalar_of_isTooLong (h : Signed (IsTooLong n) cs) : ∃ x ∈ cs.head?, StartsScalar x := by
  rcases h with h | ⟨rest, rfl, -⟩
  · obtain ⟨x, hx, hdigit⟩ := h.digit_head
    exact ⟨x, hx, Or.inl hdigit⟩
  · exact ⟨'-', rfl, Or.inr (by simp)⟩

theorem IsName.head {cs : List Char} (h : IsName cs) : ∃ x ∈ cs.head?, Opens x := by
  cases h
  exact ⟨'"', rfl, by simp [Opens, isSpace]⟩

theorem IsText.head {part : Part} (h : IsText part cs) : ∃ x ∈ cs.head?, Opens x := by
  induction h with
  | scalar h =>
    obtain ⟨x, hx, hstarts⟩ := h.head
    exact ⟨x, hx, hstarts.opens.1⟩
  | string => exact ⟨'"', rfl, by simp [Opens, isSpace]⟩
  | noItems | array => exact ⟨'[', rfl, by simp [Opens, isSpace]⟩
  | noFields | object => exact ⟨'\x7b', rfl, by simp [Opens, isSpace]⟩
  | lastItem hv hs ih => exact head_append ih _
  | item hv hs hs' h ih => exact head_append ih _
  | lastField hname | field hname => exact head_append hname.head _

theorem IsText.head?_append {part : Part} (h : IsText part cs) (rest : List Char) :
    (cs ++ rest).head? = cs.head? := by
  obtain ⟨x, hx, -⟩ := h.head
  obtain ⟨more, rfl⟩ := List.head?_eq_some_iff.mp hx
  rfl

theorem IsCut.head {part : Part} (h : IsCut n part cs) : ∃ x ∈ cs.head?, Opens x := by
  induction h with
  | integer h =>
    obtain ⟨x, hx, hstarts⟩ := startsScalar_of_isTooLong h
    exact ⟨x, hx, hstarts.opens.1⟩
  | array => exact ⟨'[', rfl, by simp [Opens, isSpace]⟩
  | object => exact ⟨'\x7b', rfl, by simp [Opens, isSpace]⟩
  | inItem h ih => exact ih
  | laterItem hv => exact head_append hv.head _
  | inField hname | laterField hname => exact head_append hname.head _

theorem no_space_head (h : ∃ x ∈ cs.head?, Opens x) : ∀ x ∈ cs.head?, isSpace x = false := by
  obtain ⟨x, hx, hspace, -⟩ := h
  intro y hy
  rwa [Option.some.inj (hy.symm.trans hx)]

/-! ### Single readings -/

theorem valueFrom_scalar (h : ∃ x ∈ c.rest.head?, StartsScalar x) :
    valueFrom (bound + 1) c = scalar c := by
  obtain ⟨x, hx, hstarts⟩ := h
  obtain ⟨more, hc⟩ := List.head?_eq_some_iff.mp hx
  have hno := hstarts.opens.2
  rw [valueFrom, hc]
  split <;> simp_all

theorem valueFrom_array {s : List Char} (hs : AreSpaces s) (hc : c.rest = '[' :: (s ++ cs))
    (hcs : ∃ x ∈ cs.head?, Opens x) :
    ∃ c₁ : Cursor, valueFrom (bound + 1) c = itemsFrom bound [] c₁ ∧ c₁.rest = cs := by
  have hafter : (c.advance 1).skipSpace.rest = cs :=
    rest_skipSpace_of_append hs (no_space_head hcs) (by simp [hc])
  refine ⟨(c.advance 1).skipSpace, ?_, hafter⟩
  rw [valueFrom, hc]
  simp only [hafter]
  split
  · simp [Opens] at hcs
  · rfl

theorem valueFrom_object {s : List Char} (hs : AreSpaces s) (hc : c.rest = '\x7b' :: (s ++ cs))
    (hcs : ∃ x ∈ cs.head?, Opens x) :
    ∃ c₁ : Cursor, valueFrom (bound + 1) c = fieldsFrom bound [] c₁ ∧ c₁.rest = cs := by
  have hafter : (c.advance 1).skipSpace.rest = cs :=
    rest_skipSpace_of_append hs (no_space_head hcs) (by simp [hc])
  refine ⟨(c.advance 1).skipSpace, ?_, hafter⟩
  rw [valueFrom, hc]
  simp only [hafter]
  split
  · simp [Opens] at hcs
  · rfl

/-- What follows an item, or the value of a field, does not continue a number. -/
theorem not_continues_spaces {s : List Char} (hs : AreSpaces s)
    (hrest : ∀ x ∈ rest.head?, x ∈ [',', ']', '\x7d']) : ¬Continues (s ++ rest) := by
  refine not_continues_of_head fun x hx => ?_
  cases s with
  | nil =>
    have hx := hrest x hx
    simp only [List.mem_cons, List.not_mem_nil, or_false] at hx
    rcases hx with rfl | rfl | rfl <;> decide
  | cons y s =>
    obtain rfl := Option.some.inj hx
    have hy := hs y List.mem_cons_self
    simp only [isSpace, Bool.or_eq_true, decide_eq_true_eq, or_assoc] at hy
    rcases hy with rfl | rfl | rfl | rfl <;> decide

/-! ### Reading what has the form of a text -/

/-- A bound that is enough for the reading of a part. -/
def Part.enough : Part → List Char → Nat
  | .value, cs => 2 * cs.length
  | _, cs => 2 * cs.length + 1

/-- A part is read up to a rest, whatever was gathered before. -/
def Reads (bound : Nat) (c : Cursor) (rest : List Char) : Part → Prop
  | .value => ∃ v c', valueFrom bound c = .ok (v, c') ∧ c'.rest = rest
  | .items => ∀ acc, ∃ v c', itemsFrom bound acc c = .ok (v, c') ∧ c'.rest = rest
  | .fields => ∀ acc, ∃ v c', fieldsFrom bound acc c = .ok (v, c') ∧ c'.rest = rest

/-- The reading of a part stops at an integer of too many digits. -/
def GivesUp (n bound : Nat) (c : Cursor) : Part → Prop
  | .value => valueFrom bound c = .error (.tooManyDigits n)
  | .items => ∀ acc, itemsFrom bound acc c = .error (.tooManyDigits n)
  | .fields => ∀ acc, fieldsFrom bound acc c = .error (.tooManyDigits n)

theorem itemsFrom_last {s : List Char} (hs : AreSpaces s)
    (h : Reads bound c (s ++ ']' :: rest) .value) (acc : List Json) :
    ∃ v c', itemsFrom (bound + 1) acc c = .ok (v, c') ∧ c'.rest = rest := by
  obtain ⟨item, c₁, hitem, hc₁⟩ := h
  have hclose : c₁.skipSpace.rest = ']' :: rest :=
    rest_skipSpace_of_append hs (by simp [isSpace]) hc₁
  refine ⟨.arr (item :: acc).reverse, c₁.skipSpace.advance 1, ?_, by simp [hclose]⟩
  rw [itemsFrom, hitem]
  simp only [bind, Except.bind, hclose]
  rfl

theorem itemsFrom_next {s s' : List Char} (hs : AreSpaces s) (hs' : AreSpaces s')
    (h : Reads bound c (s ++ ',' :: (s' ++ cs)) .value) (hcs : ∃ x ∈ cs.head?, Opens x)
    (acc : List Json) :
    ∃ acc' c', itemsFrom (bound + 1) acc c = itemsFrom bound acc' c' ∧ c'.rest = cs := by
  obtain ⟨item, c₁, hitem, hc₁⟩ := h
  have hcomma : c₁.skipSpace.rest = ',' :: (s' ++ cs) :=
    rest_skipSpace_of_append hs (by simp [isSpace]) hc₁
  have hafter : (c₁.skipSpace.advance 1).skipSpace.rest = cs :=
    rest_skipSpace_of_append hs' (no_space_head hcs) (by simp [hcomma])
  refine ⟨item :: acc, (c₁.skipSpace.advance 1).skipSpace, ?_, hafter⟩
  rw [itemsFrom, hitem]
  simp only [bind, Except.bind, hcomma]

theorem fieldsFrom_last {key s : List Char} (hkey : IsName key) (hc : c.rest = key ++ cs)
    (hcs : ∃ x ∈ cs.head?, Opens x) (hs : AreSpaces s)
    (h : ∀ c₁ : Cursor, c₁.rest = cs → Reads bound c₁ (s ++ '\x7d' :: rest) .value) (acc : Fields) :
    ∃ v c', fieldsFrom (bound + 1) acc c = .ok (v, c') ∧ c'.rest = rest := by
  obtain ⟨name, c₁, hname, hc₁⟩ := nameFrom_complete hkey hc (no_space_head hcs)
  obtain ⟨value, c₂, hvalue, hc₂⟩ := h c₁ hc₁
  have hclose : c₂.skipSpace.rest = '\x7d' :: rest :=
    rest_skipSpace_of_append hs (by simp [isSpace]) hc₂
  refine ⟨.obj (Assoc.put name value acc), c₂.skipSpace.advance 1, ?_, by simp [hclose]⟩
  rw [fieldsFrom, hname]
  simp only [bind, Except.bind, hvalue, hclose]
  rfl

theorem fieldsFrom_next {key s s' more : List Char} (hkey : IsName key) (hc : c.rest = key ++ cs)
    (hcs : ∃ x ∈ cs.head?, Opens x) (hs : AreSpaces s) (hs' : AreSpaces s')
    (h : ∀ c₁ : Cursor, c₁.rest = cs → Reads bound c₁ (s ++ ',' :: (s' ++ more)) .value)
    (hmore : ∃ x ∈ more.head?, Opens x) (acc : Fields) :
    ∃ acc' c', fieldsFrom (bound + 1) acc c = fieldsFrom bound acc' c' ∧ c'.rest = more := by
  obtain ⟨name, c₁, hname, hc₁⟩ := nameFrom_complete hkey hc (no_space_head hcs)
  obtain ⟨value, c₂, hvalue, hc₂⟩ := h c₁ hc₁
  have hcomma : c₂.skipSpace.rest = ',' :: (s' ++ more) :=
    rest_skipSpace_of_append hs (by simp [isSpace]) hc₂
  have hafter : (c₂.skipSpace.advance 1).skipSpace.rest = more :=
    rest_skipSpace_of_append hs' (no_space_head hmore) (by simp [hcomma])
  refine ⟨Assoc.put name value acc, (c₂.skipSpace.advance 1).skipSpace, ?_, hafter⟩
  rw [fieldsFrom, hname]
  simp only [bind, Except.bind, hvalue, hcomma]

/-- A bound that is enough is not zero. -/
theorem Part.exists_bound {part : Part} (hcs : ∃ x ∈ cs.head?, Opens x)
    (hbound : part.enough cs ≤ bound) : ∃ bound', bound = bound' + 1 := by
  obtain ⟨x, hx, -⟩ := hcs
  obtain ⟨more, rfl⟩ := List.head?_eq_some_iff.mp hx
  refine Nat.exists_eq_add_one.mpr (lt_of_lt_of_le ?_ hbound)
  cases part <;> simp [Part.enough]

/-- What has the form of a part is read as one, when nothing continues a number at its end. -/
theorem IsText.reads {part : Part} (h : IsText part cs) :
    ∀ bound c rest, part.enough cs ≤ bound → c.rest = cs ++ rest → ¬Continues rest →
      Reads bound c rest part := by
  induction h with intro bound c rest hbound hc hrest
  | @scalar cs h =>
    obtain ⟨bound, rfl⟩ := Part.exists_bound (IsText.scalar h).head hbound
    have hhead := head_append h.head rest
    rw [Reads, valueFrom_scalar (hc ▸ hhead)]
    exact scalar_complete h hc hrest
  | @string cs h =>
    obtain ⟨bound, rfl⟩ := Part.exists_bound (IsText.string h).head hbound
    obtain ⟨s, c', hs, hc'⟩ := stringFrom_complete h c.position (c.position + 1) [] rest
    refine ⟨.str s, c', ?_, hc'⟩
    rw [valueFrom, hc]
    simp only [List.cons_append, hs]
    rfl
  | @noItems s hs =>
    obtain ⟨bound, rfl⟩ := Part.exists_bound (IsText.noItems hs).head hbound
    have hclose : (c.advance 1).skipSpace.rest = ']' :: rest :=
      rest_skipSpace_of_append hs (by simp [isSpace]) (by simp [hc])
    refine ⟨.arr [], (c.advance 1).skipSpace.advance 1, ?_, by simp [hclose]⟩
    rw [valueFrom, hc]
    simp only [List.cons_append, hclose]
  | @array s cs hs h ih =>
    obtain ⟨bound, rfl⟩ := Part.exists_bound (IsText.array hs h).head hbound
    have htext : c.rest = '[' :: (s ++ (cs ++ rest)) := by simp [hc]
    obtain ⟨c₁, heq, hc₁⟩ := @valueFrom_array c _ bound s hs htext (head_append h.head rest)
    rw [Reads, heq]
    refine ih bound c₁ rest ?_ hc₁ hrest []
    simp [Part.enough] at hbound ⊢
    omega
  | @noFields s hs =>
    obtain ⟨bound, rfl⟩ := Part.exists_bound (IsText.noFields hs).head hbound
    have hclose : (c.advance 1).skipSpace.rest = '\x7d' :: rest :=
      rest_skipSpace_of_append hs (by simp [isSpace]) (by simp [hc])
    refine ⟨.obj [], (c.advance 1).skipSpace.advance 1, ?_, by simp [hclose]⟩
    rw [valueFrom, hc]
    simp only [List.cons_append, hclose]
  | @object s cs hs h ih =>
    obtain ⟨bound, rfl⟩ := Part.exists_bound (IsText.object hs h).head hbound
    have htext : c.rest = '\x7b' :: (s ++ (cs ++ rest)) := by simp [hc]
    obtain ⟨c₁, heq, hc₁⟩ := @valueFrom_object c _ bound s hs htext (head_append h.head rest)
    rw [Reads, heq]
    refine ih bound c₁ rest ?_ hc₁ hrest []
    simp [Part.enough] at hbound ⊢
    omega
  | @lastItem v s hv hs ihv =>
    obtain ⟨bound, rfl⟩ := Part.exists_bound (IsText.lastItem hv hs).head hbound
    refine itemsFrom_last hs (ihv bound c _ ?_ (by simp [hc]) (not_continues_spaces hs (by simp)))
    simp [Part.enough] at hbound ⊢
    omega
  | @item v s s' cs hv hs hs' h ihv ih =>
    obtain ⟨bound, rfl⟩ := Part.exists_bound (IsText.item hv hs hs' h).head hbound
    intro acc
    have hvalue := ihv bound c (s ++ ',' :: (s' ++ (cs ++ rest)))
      (by simp [Part.enough] at hbound ⊢; omega) (by simp [hc]) (not_continues_spaces hs (by simp))
    obtain ⟨acc', c', heq, hc'⟩ := itemsFrom_next hs hs' hvalue (head_append h.head rest) acc
    rw [heq]
    exact ih bound c' rest (by simp [Part.enough] at hbound ⊢; omega) hc' hrest acc'
  | @lastField key v s hkey hv hs ihv =>
    obtain ⟨bound, rfl⟩ := Part.exists_bound (IsText.lastField hkey hv hs).head hbound
    have htext : c.rest = key ++ (v ++ (s ++ '\x7d' :: rest)) := by simp [hc]
    refine fieldsFrom_last hkey htext (head_append hv.head _) hs fun c₁ hc₁ =>
      ihv bound c₁ _ ?_ hc₁ (not_continues_spaces hs (by simp))
    simp [Part.enough] at hbound ⊢
    omega
  | @field key v s s' cs hkey hv hs hs' h ihv ih =>
    obtain ⟨bound, rfl⟩ := Part.exists_bound (IsText.field hkey hv hs hs' h).head hbound
    intro acc
    have htext : c.rest = key ++ (v ++ (s ++ ',' :: (s' ++ (cs ++ rest)))) := by simp [hc]
    obtain ⟨acc', c', heq, hc'⟩ := fieldsFrom_next hkey htext (head_append hv.head _) hs hs'
      (fun c₁ hc₁ => ihv bound c₁ _ (by simp [Part.enough] at hbound ⊢; omega) hc₁
        (not_continues_spaces hs (by simp))) (head_append h.head rest) acc
    rw [heq]
    exact ih bound c' rest (by simp [Part.enough] at hbound ⊢; omega) hc' hrest acc'

/-- Where the form of a part is cut, the reading stops. -/
theorem IsCut.givesUp {part : Part} (h : IsCut n part cs) :
    ∀ bound c, part.enough cs ≤ bound → c.rest = cs → GivesUp n bound c part := by
  induction h with intro bound c hbound hc
  | @integer cs h =>
    obtain ⟨bound, rfl⟩ := Part.exists_bound (IsCut.integer h).head hbound
    subst hc
    rw [GivesUp, valueFrom_scalar (startsScalar_of_isTooLong h)]
    exact scalar_of_isTooLong h
  | @array s cs hs h ih =>
    obtain ⟨bound, rfl⟩ := Part.exists_bound (IsCut.array hs h).head hbound
    obtain ⟨c₁, heq, hc₁⟩ := @valueFrom_array c _ bound s hs hc h.head
    rw [GivesUp, heq]
    refine ih bound c₁ ?_ hc₁ []
    simp [Part.enough] at hbound ⊢
    omega
  | @object s cs hs h ih =>
    obtain ⟨bound, rfl⟩ := Part.exists_bound (IsCut.object hs h).head hbound
    obtain ⟨c₁, heq, hc₁⟩ := @valueFrom_object c _ bound s hs hc h.head
    rw [GivesUp, heq]
    refine ih bound c₁ ?_ hc₁ []
    simp [Part.enough] at hbound ⊢
    omega
  | @inItem cs h ih =>
    obtain ⟨bound, rfl⟩ := Part.exists_bound (IsCut.inItem h).head hbound
    intro acc
    have hstops : valueFrom bound c = .error (.tooManyDigits n) :=
      ih bound c (by simpa [Part.enough] using hbound) hc
    rw [itemsFrom, hstops]
    rfl
  | @laterItem v s s' cs hv hs hs' h ih =>
    obtain ⟨bound, rfl⟩ := Part.exists_bound (IsCut.laterItem hv hs hs' h).head hbound
    intro acc
    have hvalue := hv.reads bound c (s ++ ',' :: (s' ++ cs))
      (by simp [Part.enough] at hbound ⊢; omega) hc (not_continues_spaces hs (by simp))
    obtain ⟨acc', c', heq, hc'⟩ := itemsFrom_next hs hs' hvalue h.head acc
    rw [heq]
    exact ih bound c' (by simp [Part.enough] at hbound ⊢; omega) hc' acc'
  | @inField key cs hkey h ih =>
    obtain ⟨bound, rfl⟩ := Part.exists_bound (IsCut.inField hkey h).head hbound
    intro acc
    obtain ⟨name, c₁, hname, hc₁⟩ := nameFrom_complete hkey hc (no_space_head h.head)
    have hstops : valueFrom bound c₁ = .error (.tooManyDigits n) :=
      ih bound c₁ (by simp [Part.enough] at hbound ⊢; omega) hc₁
    rw [fieldsFrom, hname]
    simp only [bind, Except.bind, hstops]
  | @laterField key v s s' cs hkey hv hs hs' h ih =>
    obtain ⟨bound, rfl⟩ := Part.exists_bound (IsCut.laterField hkey hv hs hs' h).head hbound
    intro acc
    obtain ⟨acc', c', heq, hc'⟩ := fieldsFrom_next hkey hc (head_append hv.head _) hs hs'
      (fun c₁ hc₁ => hv.reads bound c₁ _ (by simp [Part.enough] at hbound ⊢; omega) hc₁
        (not_continues_spaces hs (by simp))) h.head acc
    rw [heq]
    exact ih bound c' (by simp [Part.enough] at hbound ⊢; omega) hc' acc'

/-! ### What is read has the form of a text -/

/-- What is left after a bracket and the blanks behind it. -/
theorem exists_spaces_after {x : Char} {more : List Char} (hc : c.rest = x :: more) :
    ∃ s, AreSpaces s ∧ c.rest = x :: (s ++ (c.advance 1).skipSpace.rest) := by
  obtain ⟨s, hs, hrest⟩ := exists_spaces (c.advance 1)
  refine ⟨s, hs, ?_⟩
  rw [← hrest, rest_advance_one hc, hc]

/-- What the three readers take within a bound has the form of the part that they read. -/
structure TakesForms (bound : Nat) : Prop where
  value {c c' : Cursor} {v : Json} (h : valueFrom bound c = .ok (v, c')) :
    ∃ front, c.rest = front ++ c'.rest ∧ IsText .value front
  items {acc : List Json} {c c' : Cursor} {v : Json} (h : itemsFrom bound acc c = .ok (v, c')) :
    ∃ front, c.rest = front ++ c'.rest ∧ IsText .items front
  fields {acc : Fields} {c c' : Cursor} {v : Json} (h : fieldsFrom bound acc c = .ok (v, c')) :
    ∃ front, c.rest = front ++ c'.rest ∧ IsText .fields front

theorem TakesForms.value_succ (ih : TakesForms bound) (h : valueFrom (bound + 1) c = .ok (v, c')) :
    ∃ front, c.rest = front ++ c'.rest ∧ IsText .value front := by
  rw [valueFrom] at h
  split at h
  next body hc =>
    obtain ⟨⟨s, c₁⟩, hstring, h⟩ := except_bind_eq_ok.mp h
    obtain ⟨-, rfl⟩ := Prod.mk.inj (Except.ok.inj h)
    obtain ⟨front, rfl, hfront⟩ := stringFrom_sound hstring
    exact ⟨_, hc, .string hfront⟩
  next more hc =>
    obtain ⟨s, hs, hafter⟩ := exists_spaces_after hc
    simp only at h
    split at h
    next rest hclose =>
      obtain ⟨-, rfl⟩ := Prod.mk.inj (Except.ok.inj h)
      exact ⟨_, by rw [hafter, hclose, rest_advance_one hclose]; simp, .noItems hs⟩
    next =>
      obtain ⟨front, hrest, hfront⟩ := ih.items h
      exact ⟨_, by rw [hafter, hrest]; simp, .array hs hfront⟩
  next more hc =>
    obtain ⟨s, hs, hafter⟩ := exists_spaces_after hc
    simp only at h
    split at h
    next rest hclose =>
      obtain ⟨-, rfl⟩ := Prod.mk.inj (Except.ok.inj h)
      exact ⟨_, by rw [hafter, hclose, rest_advance_one hclose]; simp, .noFields hs⟩
    next =>
      obtain ⟨front, hrest, hfront⟩ := ih.fields h
      exact ⟨_, by rw [hafter, hrest]; simp, .object hs hfront⟩
  next =>
    obtain ⟨front, hrest, hfront⟩ := scalar_sound h
    exact ⟨front, hrest, .scalar hfront⟩

theorem TakesForms.items_succ (ih : TakesForms bound) {acc : List Json}
    (h : itemsFrom (bound + 1) acc c = .ok (v, c')) :
    ∃ front, c.rest = front ++ c'.rest ∧ IsText .items front := by
  rw [itemsFrom] at h
  obtain ⟨⟨item, c₁⟩, hitem, h⟩ := except_bind_eq_ok.mp h
  obtain ⟨front, hfront, hv⟩ := ih.value hitem
  obtain ⟨s, hs, hrest⟩ := exists_spaces c₁
  simp only at h
  split at h
  next rest hclose =>
    obtain ⟨-, rfl⟩ := Prod.mk.inj (Except.ok.inj h)
    refine ⟨_, ?_, .lastItem hv hs⟩
    rw [hfront, hrest, hclose, rest_advance_one hclose]
    simp
  next more hcomma =>
    obtain ⟨s', hs', hafter⟩ := exists_spaces_after hcomma
    obtain ⟨back, hback, hitems⟩ := ih.items h
    refine ⟨_, ?_, .item hv hs hs' hitems⟩
    rw [hfront, hrest, hafter, hback]
    simp
  next => simp [Cursor.fail] at h

theorem TakesForms.fields_succ (ih : TakesForms bound) {acc : Fields}
    (h : fieldsFrom (bound + 1) acc c = .ok (v, c')) :
    ∃ front, c.rest = front ++ c'.rest ∧ IsText .fields front := by
  rw [fieldsFrom] at h
  obtain ⟨⟨name, c₁⟩, hname, h⟩ := except_bind_eq_ok.mp h
  obtain ⟨⟨value, c₂⟩, hvalue, h⟩ := except_bind_eq_ok.mp h
  obtain ⟨key, hkey, hk⟩ := nameFrom_sound hname
  obtain ⟨front, hfront, hv⟩ := ih.value hvalue
  obtain ⟨s, hs, hrest⟩ := exists_spaces c₂
  simp only at h
  split at h
  next rest hclose =>
    obtain ⟨-, rfl⟩ := Prod.mk.inj (Except.ok.inj h)
    refine ⟨_, ?_, .lastField hk hv hs⟩
    rw [hkey, hfront, hrest, hclose, rest_advance_one hclose]
    simp
  next more hcomma =>
    obtain ⟨s', hs', hafter⟩ := exists_spaces_after hcomma
    obtain ⟨back, hback, hfields⟩ := ih.fields h
    refine ⟨_, ?_, .field hk hv hs hs' hfields⟩
    rw [hkey, hfront, hrest, hafter, hback]
    simp
  next => simp [Cursor.fail] at h

theorem takesForms (bound : Nat) : TakesForms bound := by
  induction bound with
  | zero => constructor <;> intros <;> simp_all [valueFrom, itemsFrom, fieldsFrom, Cursor.fail]
  | succ bound ih => exact ⟨ih.value_succ, ih.items_succ, ih.fields_succ⟩

/-- Where the three readers stop within a bound for the length of an integer, they have met one that is
too long. -/
structure StopsAtCuts (n bound : Nat) : Prop where
  value {c : Cursor} (h : valueFrom bound c = .error (.tooManyDigits n)) : IsCut n .value c.rest
  items {acc : List Json} {c : Cursor} (h : itemsFrom bound acc c = .error (.tooManyDigits n)) :
    IsCut n .items c.rest
  fields {acc : Fields} {c : Cursor} (h : fieldsFrom bound acc c = .error (.tooManyDigits n)) :
    IsCut n .fields c.rest

theorem StopsAtCuts.value_succ (ih : StopsAtCuts n bound)
    (h : valueFrom (bound + 1) c = .error (.tooManyDigits n)) : IsCut n .value c.rest := by
  rw [valueFrom] at h
  split at h
  next body hc =>
    rcases except_bind_eq_error.mp h with h | ⟨found, -, h⟩
    · exact absurd h stringFrom_ne_tooManyDigits
    · simp [pure, Except.pure] at h
  next more hc =>
    obtain ⟨s, hs, hafter⟩ := exists_spaces_after hc
    simp only at h
    split at h
    · simp at h
    · exact hafter ▸ .array hs (ih.items h)
  next more hc =>
    obtain ⟨s, hs, hafter⟩ := exists_spaces_after hc
    simp only at h
    split at h
    · simp at h
    · exact hafter ▸ .object hs (ih.fields h)
  next => exact .integer (isTooLong_of_scalar h)

theorem StopsAtCuts.items_succ (ih : StopsAtCuts n bound) {acc : List Json}
    (h : itemsFrom (bound + 1) acc c = .error (.tooManyDigits n)) : IsCut n .items c.rest := by
  rw [itemsFrom] at h
  rcases except_bind_eq_error.mp h with h | ⟨⟨item, c₁⟩, hitem, h⟩
  · exact .inItem (ih.value h)
  · obtain ⟨front, hfront, hv⟩ := (takesForms bound).value hitem
    obtain ⟨s, hs, hrest⟩ := exists_spaces c₁
    simp only at h
    split at h
    · simp [pure, Except.pure] at h
    next more hcomma =>
      obtain ⟨s', hs', hafter⟩ := exists_spaces_after hcomma
      rw [hfront, hrest, hafter]
      exact .laterItem hv hs hs' (ih.items h)
    · simp [Cursor.fail] at h

theorem StopsAtCuts.fields_succ (ih : StopsAtCuts n bound) {acc : Fields}
    (h : fieldsFrom (bound + 1) acc c = .error (.tooManyDigits n)) : IsCut n .fields c.rest := by
  rw [fieldsFrom] at h
  rcases except_bind_eq_error.mp h with h | ⟨⟨name, c₁⟩, hname, h⟩
  · exact absurd h nameFrom_ne_tooManyDigits
  obtain ⟨key, hkey, hk⟩ := nameFrom_sound hname
  rw [hkey]
  rcases except_bind_eq_error.mp h with h | ⟨⟨value, c₂⟩, hvalue, h⟩
  · exact .inField hk (ih.value h)
  obtain ⟨front, hfront, hv⟩ := (takesForms bound).value hvalue
  obtain ⟨s, hs, hrest⟩ := exists_spaces c₂
  simp only at h
  split at h
  · simp [pure, Except.pure] at h
  next more hcomma =>
    obtain ⟨s', hs', hafter⟩ := exists_spaces_after hcomma
    rw [hfront, hrest, hafter]
    exact .laterField hk hv hs hs' (ih.fields h)
  · simp [Cursor.fail] at h

theorem stopsAtCuts (n bound : Nat) : StopsAtCuts n bound := by
  induction bound with
  | zero => constructor <;> intros <;> simp_all [valueFrom, itemsFrom, fieldsFrom, Cursor.fail]
  | succ bound ih => exact ⟨ih.value_succ, ih.items_succ, ih.fields_succ⟩

/-! ### Objects -/

/-- Arrays come of items, and objects of fields. -/
theorem kinds_of_readers (bound : Nat) :
    (∀ acc c v c', itemsFrom bound acc c = .ok (v, c') → ∃ items, v = .arr items)
      ∧ (∀ acc c v c', fieldsFrom bound acc c = .ok (v, c') → ∃ fields, v = .obj fields) := by
  induction bound with
  | zero => refine ⟨?_, ?_⟩ <;> intros <;> simp_all [itemsFrom, fieldsFrom, Cursor.fail]
  | succ bound ih =>
    refine ⟨fun acc c v c' h => ?_, fun acc c v c' h => ?_⟩
    · rw [itemsFrom] at h
      obtain ⟨⟨item, c₁⟩, -, h⟩ := except_bind_eq_ok.mp h
      simp only at h
      split at h
      · obtain ⟨rfl, -⟩ := Prod.mk.inj (Except.ok.inj h)
        exact ⟨_, rfl⟩
      · exact ih.1 _ _ _ _ h
      · simp [Cursor.fail] at h
    · rw [fieldsFrom] at h
      obtain ⟨⟨name, c₁⟩, -, h⟩ := except_bind_eq_ok.mp h
      obtain ⟨⟨value, c₂⟩, -, h⟩ := except_bind_eq_ok.mp h
      simp only at h
      split at h
      · obtain ⟨rfl, -⟩ := Prod.mk.inj (Except.ok.inj h)
        exact ⟨_, rfl⟩
      · exact ih.2 _ _ _ _ h
      · simp [Cursor.fail] at h

theorem scalar_ne_obj {fields : Fields} (h : scalar c = .ok (.obj fields, c')) : False := by
  have hnumber : ∀ {start c₁ : Cursor} {negative : Bool},
      numberFrom start negative c₁ ≠ .ok (.obj fields, c') := by
    intro start c₁ negative h
    simp only [numberFrom, Cursor.fail] at h
    split at h
    · simp at h
    · split at h
      · split at h <;> simp at h
      · simp at h
  rw [scalar] at h
  split at h
  next found hword =>
    obtain rfl := Except.ok.inj h
    obtain ⟨⟨w, value⟩, hmem, hfound⟩ := List.exists_of_findSome?_eq_some hword
    obtain ⟨rest, -, heq⟩ := Option.map_eq_some_iff.mp hfound
    obtain rfl : value = .obj fields := (Prod.mk.inj heq).1
    simp at hmem
  next =>
    split at h
    · exact hnumber h
    · exact hnumber h

/-- A value that is read is an object just if its text starts with a brace. -/
theorem isObject_iff (h : valueFrom bound c = .ok (v, c')) :
    (∃ fields, v = .obj fields) ↔ c.rest.head? = some '\x7b' := by
  cases bound with
  | zero => simp [valueFrom, Cursor.fail] at h
  | succ bound =>
    rw [valueFrom] at h
    split at h
    next body hc =>
      obtain ⟨⟨s, c₁⟩, -, h⟩ := except_bind_eq_ok.mp h
      obtain ⟨rfl, -⟩ := Prod.mk.inj (Except.ok.inj h)
      simp [hc]
    next more hc =>
      have harr : ∃ items, v = .arr items := by
        simp only at h
        split at h
        · obtain ⟨rfl, -⟩ := Prod.mk.inj (Except.ok.inj h)
          exact ⟨_, rfl⟩
        · exact (kinds_of_readers bound).1 _ _ _ _ h
      obtain ⟨items, rfl⟩ := harr
      simp [hc]
    next more hc =>
      have hobj : ∃ fields, v = .obj fields := by
        simp only at h
        split at h
        · obtain ⟨rfl, -⟩ := Prod.mk.inj (Except.ok.inj h)
          exact ⟨_, rfl⟩
        · exact (kinds_of_readers bound).2 _ _ _ _ h
      simpa [hc] using hobj
    next hno =>
      constructor
      · rintro ⟨fields, rfl⟩
        exact absurd h scalar_ne_obj
      · intro hbrace
        obtain ⟨more, hc⟩ := List.head?_eq_some_iff.mp hbrace
        exact absurd hc (by simp_all)

/-! ### Whole texts -/

/-- A value with blanks around it. -/
def IsDocument (cs : List Char) : Prop :=
  ∃ s v s', AreSpaces s ∧ IsText .value v ∧ AreSpaces s' ∧ cs = s ++ (v ++ s')

/-- An object with blanks around it. -/
def IsObjectDocument (cs : List Char) : Prop :=
  ∃ s v s', AreSpaces s ∧ IsText .value v ∧ v.head? = some '\x7b' ∧ AreSpaces s' ∧ cs = s ++ (v ++ s')

/-- The text of a value, after blanks, in which an integer of too many digits is met. -/
def IsCutDocument (n : Nat) (cs : List Char) : Prop :=
  ∃ s v, AreSpaces s ∧ IsCut n .value v ∧ cs = s ++ v

/-- The reading of a whole text that does not start with a byte order mark. -/
theorem parseChars_eq (h : cs.head? ≠ some '\uFEFF') :
    parseChars cs = (valueFrom (2 * cs.length + 2) (Cursor.skipSpace ⟨cs, 0⟩) >>= fun found =>
      if found.2.skipSpace.rest.isEmpty then pure found.1
      else found.2.skipSpace.fail .extraData) := by
  unfold parseChars
  split
  · simp at h
  · rfl

theorem no_mark_head {s : List Char} (hs : AreSpaces s) (hcs : ∃ x ∈ cs.head?, Opens x) :
    (s ++ cs).head? ≠ some '\uFEFF' := by
  cases s with
  | nil =>
    intro hmark
    rw [List.nil_append] at hmark
    simp [hmark, Opens] at hcs
  | cons x s =>
    intro hmark
    obtain rfl : x = '\uFEFF' := by simpa using hmark
    exact absurd (hs _ List.mem_cons_self) (by decide)

/-- What is read of a whole text is a value with blanks around it, and an object just if it starts with a
brace. -/
theorem parseChars_sound (h : parseChars cs = .ok v) :
    ∃ s value s', AreSpaces s ∧ IsText .value value ∧ AreSpaces s' ∧ cs = s ++ (value ++ s')
      ∧ ((∃ fields, v = .obj fields) ↔ value.head? = some '\x7b') := by
  by_cases hmark : cs.head? = some '\uFEFF'
  · obtain ⟨more, rfl⟩ := List.head?_eq_some_iff.mp hmark
    simp [parseChars] at h
  · rw [parseChars_eq hmark] at h
    obtain ⟨⟨found, c⟩, hfound, h⟩ := except_bind_eq_ok.mp h
    obtain ⟨value, hrest, hvalue⟩ := (takesForms _).value hfound
    obtain ⟨s, hs, hcs⟩ := exists_spaces ⟨cs, 0⟩
    obtain ⟨s', hs', hc⟩ := exists_spaces c
    have hobject := isObject_iff hfound
    simp only at h
    split at h
    next hempty =>
      obtain rfl := Except.ok.inj h
      rw [List.isEmpty_iff.mp hempty, List.append_nil] at hc
      refine ⟨s, value, s', hs, hvalue, hs', by rw [← hc, ← hrest]; exact hcs, ?_⟩
      rw [hobject, hrest, hvalue.head?_append]
    next => simp [Cursor.fail] at h

/-- A value with blanks around it is read. -/
theorem parseChars_complete {s value s' : List Char} (hs : AreSpaces s) (hvalue : IsText .value value)
    (hs' : AreSpaces s') :
    ∃ v, parseChars (s ++ (value ++ s')) = .ok v
      ∧ ((∃ fields, v = .obj fields) ↔ value.head? = some '\x7b') := by
  have hhead := head_append hvalue.head s'
  have hstart : (Cursor.skipSpace ⟨s ++ (value ++ s'), 0⟩).rest = value ++ s' :=
    rest_skipSpace_of_append hs (no_space_head hhead) rfl
  have hends : ¬Continues (s' ++ []) := not_continues_spaces hs' (by simp)
  obtain ⟨v, c, hread, hc⟩ := hvalue.reads (2 * (s ++ (value ++ s')).length + 2) _ s'
    (by simp [Part.enough]; omega) hstart (by simpa using hends)
  have hempty : c.skipSpace.rest = [] := rest_skipSpace_of_append hs' (by simp) (by simp [hc])
  refine ⟨v, ?_, ?_⟩
  · rw [parseChars_eq (no_mark_head hs hhead), hread]
    simp [bind, Except.bind, hempty]
    rfl
  · rw [isObject_iff hread, hstart, hvalue.head?_append]

/-- The texts that are read. -/
theorem parseChars_ok_iff : (∃ v, parseChars cs = .ok v) ↔ IsDocument cs := by
  constructor
  · rintro ⟨v, h⟩
    obtain ⟨s, value, s', hs, hvalue, hs', hcs, -⟩ := parseChars_sound h
    exact ⟨s, value, s', hs, hvalue, hs', hcs⟩
  · rintro ⟨s, value, s', hs, hvalue, hs', rfl⟩
    obtain ⟨v, h, -⟩ := parseChars_complete hs hvalue hs'
    exact ⟨v, h⟩

/-- The texts that are read as objects. -/
theorem parseChars_object_iff :
    (∃ fields, parseChars cs = .ok (.obj fields)) ↔ IsObjectDocument cs := by
  constructor
  · rintro ⟨fields, h⟩
    obtain ⟨s, value, s', hs, hvalue, hs', hcs, hobject⟩ := parseChars_sound h
    exact ⟨s, value, s', hs, hvalue, hobject.mp ⟨fields, rfl⟩, hs', hcs⟩
  · rintro ⟨s, value, s', hs, hvalue, hbrace, hs', rfl⟩
    obtain ⟨v, h, hobject⟩ := parseChars_complete hs hvalue hs'
    obtain ⟨fields, rfl⟩ := hobject.mpr hbrace
    exact ⟨fields, h⟩

/-- The texts at which the reader gives up for the length of an integer. -/
theorem parseChars_tooManyDigits_iff :
    parseChars cs = .error (.tooManyDigits n) ↔ IsCutDocument n cs := by
  constructor
  · intro h
    by_cases hmark : cs.head? = some '\uFEFF'
    · obtain ⟨more, rfl⟩ := List.head?_eq_some_iff.mp hmark
      simp [parseChars] at h
    · rw [parseChars_eq hmark] at h
      obtain ⟨s, hs, hcs⟩ := exists_spaces ⟨cs, 0⟩
      rcases except_bind_eq_error.mp h with h | ⟨⟨found, c⟩, -, h⟩
      · exact ⟨s, _, hs, (stopsAtCuts n _).value h, hcs⟩
      · simp only at h
        split at h <;> simp [pure, Except.pure, Cursor.fail] at h
  · rintro ⟨s, v, hs, hv, rfl⟩
    have hstart : (Cursor.skipSpace ⟨s ++ v, 0⟩).rest = v :=
      rest_skipSpace_of_append hs (no_space_head hv.head) rfl
    have hstops : valueFrom (2 * (s ++ v).length + 2) (Cursor.skipSpace ⟨s ++ v, 0⟩)
        = .error (.tooManyDigits n) := hv.givesUp _ _ (by simp [Part.enough]; omega) hstart
    rw [parseChars_eq (no_mark_head hs hv.head), hstops]
    rfl

end PackageLint.Json
