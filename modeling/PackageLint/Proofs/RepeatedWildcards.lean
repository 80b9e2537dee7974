import PackageLint.Proofs.Decompositions
import PackageLint.Subpath.Expand

/-!
# Wildcards that stand for one text

All wildcards of a pattern are to stand for one text: `/d/*/*.js` is for the files that have the
same name as their directory, and for `/d/a/b/a/b.js`. A search does not look for such a text. It
matches the pattern, each wildcard by itself, and then looks whether the captures are the same.

## What goes wrong

A match settles for the greatest way to read the value, and the way with one text for all wildcards
need not be that one. In `/d/a/a/a/a.js` both wildcards of `/d/*/*.js` can stand for `a/a`, but the
first one takes `a/a/a`, since `a` is still left for the second. The captures then differ, and the
file is passed over. It can happen only where wildcards are repeated: a single one has no choice.

So what is accepted is the pattern with one text put in for all wildcards, as it should be, but only
where no other way to read the value is greater.

## Main definitions

* `Pattern.MatchesUniformly` — the test of a search: a match with equal captures
* `Pattern.IsSubstitution` — what the test is for
* `Pattern.Prevails` — the condition under which a match finds the text that was put in

## Main results

* `Subpath.Search.finds_iff` — where a search applies the test
* `Pattern.matchesUniformly_iff` — what passes it
* `Pattern.uniform_match_iff` — the same, and when that is all that should pass it
-/

namespace PackageLint

namespace Pattern

/-- The text of a pattern with one text in place of every wildcard. -/
def substituted (pattern text : String) : String :=
  String.ofList (pattern.toList.flatMap fun c => if c = '*' then text.toList else [c])

/-- Whether a pattern matches a value with equal captures. -/
def MatchesUniformly (pattern value : String) : Prop :=
  ∃ captures, (ofText pattern).captures? value = some captures
    ∧ ∀ s ∈ captures, ∀ t ∈ captures, s = t

/-- Whether a value is a pattern with one text, not empty, in place of every wildcard. -/
def IsSubstitution (pattern value : String) : Prop :=
  ∃ text, text ≠ "" ∧ substituted pattern text = value

/-- Whether no way to read a value as a pattern is greater than that with one text for all
wildcards. -/
def Prevails (pattern value text : String) : Prop :=
  ∀ others, (ofText pattern).Decomposes value.toList others →
    others.map List.length ≤ List.replicate (pattern.toList.count '*') text.length

variable {pattern value text : String}

/-! ### One text in all places -/

theorem length_tail_ofChars (cs : List Char) : (ofChars cs).tail.length = cs.count '*' := by
  induction cs with
  | nil => rfl
  | cons c cs ih =>
    rw [ofChars] at ih ⊢
    by_cases hc : c = '*'
    · subst hc
      simpa [Text.split] using ih
    · simpa [Text.split, hc] using ih

theorem filled_replicate (cs s : List Char) :
    (ofChars cs).filled (List.replicate (cs.count '*') s)
      = cs.flatMap fun c => if c = '*' then s else [c] := by
  induction cs with
  | nil => rfl
  | cons c cs ih =>
    rw [ofChars, filled] at ih ⊢
    rw [List.flatMap_cons, ← ih]
    by_cases hc : c = '*'
    · subst hc
      simp [Text.split, List.replicate_succ]
    · simp [Text.split, hc]

/-- Putting in a text is a way to read the result. -/
theorem decomposes_replicate (hstar : '*' ∈ pattern.toList) :
    (ofText pattern).Decomposes value.toList
        (List.replicate (pattern.toList.count '*') text.toList)
      ↔ text ≠ "" ∧ substituted pattern text = value := by
  have hvalue : value.toList
        = (ofText pattern).filled (List.replicate (pattern.toList.count '*') text.toList)
      ↔ substituted pattern text = value := by
    rw [ofText, filled_replicate, substituted, ← String.toList_inj, String.toList_ofList]
    exact eq_comm
  have hcount : pattern.toList.count '*' ≠ 0 := by
    rw [Ne, List.count_eq_zero]
    exact fun hno => hno hstar
  constructor
  · intro h
    refine ⟨?_, hvalue.mp h.value_eq⟩
    simpa using h.ne_nil text.toList (List.mem_replicate.mpr ⟨hcount, rfl⟩)
  · rintro ⟨hne, htext⟩
    refine ⟨?_, ?_, hvalue.mpr htext⟩
    · rw [List.length_replicate, ofText, length_tail_ofChars]
    · intro s hs
      rw [List.eq_of_mem_replicate hs]
      simpa using hne

theorem length_flatMap_stars (cs s : List Char) :
    (cs.flatMap fun c => if c = '*' then s else [c]).length
      = cs.count '*' * s.length + cs.countP (· ≠ '*') := by
  induction cs with
  | nil => simp
  | cons c cs ih =>
    rw [List.flatMap_cons, List.length_append, ih, List.count_cons, List.countP_cons]
    by_cases hc : c = '*'
    · simp [hc]
      ring
    · simp [hc]
      ring

/-- The length of the text that was put in can be told from the result. -/
theorem length_eq_of_substituted (hstar : '*' ∈ pattern.toList) {other : String}
    (h : substituted pattern text = substituted pattern other) :
    text.toList.length = other.toList.length := by
  have hlength := congrArg (fun s : String => s.toList.length) h
  simp only [substituted, String.toList_ofList, length_flatMap_stars] at hlength
  have hcount : 0 < pattern.toList.count '*' := List.count_pos_iff.mpr hstar
  exact Nat.eq_of_mul_eq_mul_left hcount (Nat.add_right_cancel hlength)

/-! ### The test -/

/-- The way with one text for all wildcards is the greatest one. -/
theorem isGreatest_replicate (hstar : '*' ∈ pattern.toList) :
    (ofText pattern).IsGreatest value.toList
        (List.replicate (pattern.toList.count '*') text.toList)
      ↔ text ≠ "" ∧ substituted pattern text = value ∧ Prevails pattern value text := by
  have hlengths : (List.replicate (pattern.toList.count '*') text.toList).map List.length
      = List.replicate (pattern.toList.count '*') text.length := by
    rw [List.map_replicate, String.length_toList]
  constructor
  · rintro ⟨hdecomposes, hgreatest⟩
    obtain ⟨hne, hvalue⟩ := (decomposes_replicate hstar).mp hdecomposes
    refine ⟨hne, hvalue, ?_⟩
    intro others hothers
    rw [← hlengths]
    exact hgreatest others hothers
  · rintro ⟨hne, hvalue, hprevails⟩
    refine ⟨(decomposes_replicate hstar).mpr ⟨hne, hvalue⟩, ?_⟩
    intro others hothers
    rw [hlengths]
    exact hprevails others hothers

/-- The captures of a match with equal captures are one text, repeated. -/
theorem matchesUniformly_iff_isGreatest (hstar : '*' ∈ pattern.toList)
    (hline : '\n' ∉ value.toList) :
    MatchesUniformly pattern value
      ↔ ∃ text : String, (ofText pattern).IsGreatest value.toList
          (List.replicate (pattern.toList.count '*') text.toList) := by
  constructor
  · rintro ⟨captures, hcaptures, hsame⟩
    have hgreatest := (match?_eq_some_iff hline).mp (captures?_eq_some_iff.mp hcaptures)
    have hlength : captures.length = pattern.toList.count '*' := by
      have := hgreatest.decomposes.length_eq
      rwa [List.length_map, ofText, length_tail_ofChars] at this
    obtain ⟨text, rest, rfl⟩ : ∃ text rest, captures = text :: rest := by
      refine List.exists_cons_of_ne_nil (List.ne_nil_of_length_pos ?_)
      rw [hlength]
      exact List.count_pos_iff.mpr hstar
    have hall : text :: rest = List.replicate (pattern.toList.count '*') text :=
      List.eq_replicate_iff.mpr ⟨hlength, fun s hs => hsame s hs text List.mem_cons_self⟩
    refine ⟨text, ?_⟩
    rwa [hall, List.map_replicate] at hgreatest
  · rintro ⟨text, hgreatest⟩
    refine ⟨List.replicate (pattern.toList.count '*') text, ?_, ?_⟩
    · rw [captures?_eq_some_iff, match?_eq_some_iff hline, List.map_replicate]
      exact hgreatest
    · intro s hs t ht
      rw [List.eq_of_mem_replicate hs, List.eq_of_mem_replicate ht]

/-- A match with equal captures is the pattern with one text put in, where that is the greatest way
to read the value. -/
theorem matchesUniformly_iff (hstar : '*' ∈ pattern.toList) (hline : '\n' ∉ value.toList) :
    MatchesUniformly pattern value
      ↔ ∃ text, text ≠ "" ∧ substituted pattern text = value ∧ Prevails pattern value text := by
  rw [matchesUniformly_iff_isGreatest hstar hline]
  exact exists_congr fun text => isGreatest_replicate hstar

/-- No way to read a value as a pattern with one wildcard is greater than another. -/
theorem Decomposes.length_of_single {head literal : List Char} {value : List Char}
    {captures others : List (List Char)} (h : Decomposes ⟨head, [literal]⟩ value captures)
    (h' : Decomposes ⟨head, [literal]⟩ value others) :
    captures.map List.length = others.map List.length := by
  obtain ⟨s, _, after, rfl, -, rfl, hafter⟩ := decomposes_cons.mp h
  obtain ⟨s', _, after', rfl, -, hvalue, hafter'⟩ := decomposes_cons.mp h'
  obtain ⟨rfl, rfl⟩ := decomposes_nil.mp hafter
  obtain ⟨rfl, rfl⟩ := decomposes_nil.mp hafter'
  rw [List.append_cancel_right (List.append_cancel_left hvalue)]

/-- With a single wildcard there is nothing to choose. -/
theorem prevails_of_single (hstar : '*' ∈ pattern.toList) (hone : pattern.toList.count '*' = 1)
    (hne : text ≠ "") (hvalue : substituted pattern text = value) :
    Prevails pattern value text := by
  intro others hothers
  have hdecomposes := (decomposes_replicate hstar).mpr ⟨hne, hvalue⟩
  obtain ⟨literal, htail⟩ : ∃ literal, (ofText pattern).tail = [literal] := by
    rw [← List.length_eq_one_iff, ofText, length_tail_ofChars]
    exact hone
  have hparts : ofText pattern = ⟨(ofText pattern).head, [literal]⟩ := by rw [← htail]
  rw [hparts] at hothers hdecomposes
  refine le_of_eq ((hothers.length_of_single hdecomposes).trans ?_)
  rw [List.map_replicate, String.length_toList]

/-- A text that is put in prevails when another one does that gives the same value. -/
theorem Prevails.of_substituted {other : String} (hstar : '*' ∈ pattern.toList)
    (h : Prevails pattern value other)
    (hsame : substituted pattern text = substituted pattern other) :
    Prevails pattern value text := by
  intro others hothers
  have hlength := length_eq_of_substituted hstar hsame
  rw [String.length_toList, String.length_toList] at hlength
  rw [hlength]
  exact h others hothers

/-- A search accepts a value where it is the pattern with one text put in for all wildcards and no
other way to read it is greater. So it accepts just the values that are the pattern with one text
put in when, and only when, no way to read them is greater than that; with a single wildcard this is
always so. -/
theorem uniform_match_iff (hstar : '*' ∈ pattern.toList) (hline : '\n' ∉ value.toList) :
    (MatchesUniformly pattern value
        ↔ ∃ text, text ≠ "" ∧ substituted pattern text = value ∧ Prevails pattern value text)
      ∧ ((MatchesUniformly pattern value ↔ IsSubstitution pattern value)
          ↔ ∀ text, text ≠ "" → substituted pattern text = value → Prevails pattern value text)
      ∧ (pattern.toList.count '*' = 1 →
          (MatchesUniformly pattern value ↔ IsSubstitution pattern value)) := by
  have htest := matchesUniformly_iff hstar hline
  have hexact : (MatchesUniformly pattern value ↔ IsSubstitution pattern value)
      ↔ ∀ text, text ≠ "" → substituted pattern text = value → Prevails pattern value text := by
    constructor
    · intro hiff text hne hvalue
      obtain ⟨other, -, hother, hprevails⟩ := htest.mp (hiff.mpr ⟨text, hne, hvalue⟩)
      exact hprevails.of_substituted hstar (hvalue.trans hother.symm)
    · intro hprevails
      refine htest.trans (exists_congr fun text => ?_)
      exact and_congr_right fun hne => and_iff_left_of_imp fun hvalue => hprevails text hne hvalue
  refine ⟨htest, hexact, ?_⟩
  intro hone
  exact hexact.mpr fun text hne hvalue => prevails_of_single hstar hone hne hvalue

/-- Both wildcards can stand for `a/a`, and yet the path is not accepted. -/
theorem doubled_directory_rejected :
    '*' ∈ "/d/*/*.js".toList ∧ '\n' ∉ "/d/a/a/a/a.js".toList
      ∧ IsSubstitution "/d/*/*.js" "/d/a/a/a/a.js"
      ∧ ¬MatchesUniformly "/d/*/*.js" "/d/a/a/a/a.js" := by
  have hstar : '*' ∈ "/d/*/*.js".toList := by decide
  have hline : '\n' ∉ "/d/a/a/a/a.js".toList := by decide
  have hsubstitution : substituted "/d/*/*.js" "a/a" = "/d/a/a/a/a.js" := by decide
  obtain ⟨-, hexact, -⟩ := uniform_match_iff hstar hline
  refine ⟨hstar, hline, ⟨"a/a", by decide, hsubstitution⟩, fun hmatch => ?_⟩
  have hgreater : (ofText "/d/*/*.js").Decomposes "/d/a/a/a/a.js".toList
      (["a/a/a", "a"].map String.toList) := ⟨by decide, by decide, by decide⟩
  have hno := hexact.mp (iff_of_true hmatch ⟨"a/a", by decide, hsubstitution⟩) "a/a" (by decide)
    hsubstitution _ hgreater
  exact absurd hno (by decide)

end Pattern

/-- A search finds the paths that pass the test, apart from those whose captures are hidden. -/
theorem Subpath.Search.finds_iff {search : Search} {path : String} :
    search.finds path = true
      ↔ Pattern.MatchesUniformly (Path.slashed search.pattern) (Path.slashed path)
          ∧ ∀ captures,
              (Pattern.ofText (Path.slashed search.pattern)).captures? (Path.slashed path)
                = some captures →
              ∀ s ∈ captures, search.hides s = false := by
  rw [finds, Pattern.MatchesUniformly]
  cases (Pattern.ofText (Path.slashed search.pattern)).captures? (Path.slashed path) with
  | none => simp
  | some captures =>
    cases captures with
    | nil => simp
    | cons first others =>
      simp only [Bool.and_eq_true, List.all_eq_true, decide_eq_true_eq, Bool.not_eq_true',
        Option.some.injEq, exists_eq_left', forall_eq', List.forall_mem_cons]
      constructor
      · rintro ⟨hsame, hshown⟩
        have hall : ∀ s ∈ others, first = s := fun s hs => (hsame s hs).symm
        exact ⟨⟨⟨trivial, hall⟩, fun s hs => ⟨hsame s hs, fun t ht => hsame s hs ▸ hall t ht⟩⟩,
          hshown, fun s hs => hsame s hs ▸ hshown⟩
      · rintro ⟨⟨-, hsame⟩, hshown, -⟩
        exact ⟨fun s hs => (hsame s hs).1, hshown⟩

end PackageLint
