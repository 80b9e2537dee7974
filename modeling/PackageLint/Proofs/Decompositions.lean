import PackageLint.Proofs.PathForms
import PackageLint.Proofs.TextParts
import PackageLint.Subpath.Pattern

/-!
# What the wildcards of a pattern stand for

A value can often be read as a pattern in several ways: `banana` is `*a*` with `b` and `nana`, and
with `ban` and `na`. A match has to settle for one of them. Its first wildcard takes as much as it
can and gives characters back, one by one, until what follows can be matched too; then the next
wildcard does the same with what is left.

This file compares the search with the ways themselves. It gives up only where there is no way at
all, and the way it settles for is the greatest one, when ways are compared by what the first
wildcard takes, then by what the second takes, and so on. Both are one induction over the literal
parts: a wildcard takes less only after all that follows it has failed for more, and by then it is
known that a failure means that there is no way.

## Line feeds

A wildcard takes no line feed, and a pattern leaves a final one of the value over. The results are
about values without line feeds, for which neither matters.

## Main definitions

* `Pattern.Decomposes` — a way to read a value as a pattern
* `Pattern.IsGreatest` — the greatest of these ways

## Main results

* `Pattern.match?_cases` — a match gives the greatest way, and fails only where there is none
* `Pattern.captures_greatest` — the same for texts, with the parts between the wildcards
-/

namespace PackageLint

namespace Text

/-- The pieces of a text are those between the occurrences of the separator. -/
theorem splitOn_eq_pieces (sep : Char) (cs : List Char) : cs.splitOn sep = pieces sep cs := by
  induction cs with
  | nil => rfl
  | cons c cs ih =>
    rw [List.splitOn] at ih ⊢
    rw [List.splitOnP_cons_eq_if_modifyHead, ih]
    by_cases hc : c = sep
    · subst hc
      rw [if_pos (by simp), pieces_cons_self]
    · rw [if_neg (by simpa using hc), pieces_cons_of_ne hc]
      rfl

end Text

namespace Pattern

/-! ### Ways to read a value -/

/-- The text that a pattern becomes when texts take the places of its wildcards, one after the
other. -/
def filled (pattern : Pattern) (captures : List (List Char)) : List Char :=
  pattern.head ++ (List.zipWith (· ++ ·) captures pattern.tail).flatten

/-- A way to read a value as a pattern: a text for every wildcard, none of them empty, that together
with the literal parts make up the value. -/
structure Decomposes (pattern : Pattern) (value : List Char) (captures : List (List Char)) :
    Prop where
  length_eq : captures.length = pattern.tail.length
  ne_nil : ∀ s ∈ captures, s ≠ []
  value_eq : value = pattern.filled captures

/-- A way that is at least as great as any other, by the lengths of what the wildcards stand for,
from the first on. -/
structure IsGreatest (pattern : Pattern) (value : List Char) (captures : List (List Char)) :
    Prop where
  decomposes : pattern.Decomposes value captures
  greatest : ∀ others, pattern.Decomposes value others →
    others.map List.length ≤ captures.map List.length

variable {pattern : Pattern} {head literal value : List Char} {tail captures : List (List Char)}

theorem decomposes_nil : Decomposes ⟨head, []⟩ value captures ↔ captures = [] ∧ value = head := by
  constructor
  · rintro ⟨hlength, -, hvalue⟩
    obtain rfl := List.length_eq_zero_iff.mp hlength
    exact ⟨rfl, by simpa [filled] using hvalue⟩
  · rintro ⟨rfl, rfl⟩
    exact ⟨rfl, by simp, by simp [filled]⟩

/-- The first wildcard takes a text behind the head, and the rest is read as the pattern that starts
with the next literal part. -/
theorem decomposes_cons :
    Decomposes ⟨head, literal :: tail⟩ value captures
      ↔ ∃ s others after, captures = s :: others ∧ s ≠ [] ∧ value = head ++ (s ++ after)
          ∧ Decomposes ⟨literal, tail⟩ after others := by
  constructor
  · rintro ⟨hlength, hne, hvalue⟩
    obtain ⟨s, others, rfl⟩ := List.exists_cons_of_length_eq_add_one hlength
    obtain ⟨hs, hothers⟩ := List.forall_mem_cons.mp hne
    refine ⟨s, others, filled ⟨literal, tail⟩ others, rfl, hs, ?_, ?_, hothers, rfl⟩
    · simpa [filled] using hvalue
    · simpa using hlength
  · rintro ⟨s, others, after, rfl, hs, rfl, hlength, hothers, rfl⟩
    exact ⟨by simpa using hlength, List.forall_mem_cons.mpr ⟨hs, hothers⟩, by simp [filled]⟩

/-- A way is told from all others by the lengths of what the wildcards stand for. -/
theorem Decomposes.eq_of_lengths {others : List (List Char)} (h : pattern.Decomposes value captures)
    (h' : pattern.Decomposes value others)
    (hlengths : captures.map List.length = others.map List.length) : captures = others := by
  obtain ⟨head, tail⟩ := pattern
  induction tail generalizing head value captures others with
  | nil => rw [(decomposes_nil.mp h).1, (decomposes_nil.mp h').1]
  | cons literal tail ih =>
    obtain ⟨s, rest, after, rfl, -, rfl, hrest⟩ := decomposes_cons.mp h
    obtain ⟨s', rest', after', rfl, -, hvalue, hrest'⟩ := decomposes_cons.mp h'
    obtain ⟨hfirst, hothers⟩ := List.cons.inj hlengths
    obtain ⟨rfl, rfl⟩ := List.append_inj (List.append_cancel_left hvalue) hfirst
    rw [ih hothers literal hrest hrest']

/-! ### The search -/

section Wildcard

variable {next : List Char → Option (List (List Char))} {cs s after : List Char}
  {others : List (List Char)}

/-- A wildcard that finds no way has tried every text it could take. -/
theorem next_eq_none_of_wildcard (h : wildcard next cs = none) (hline : '\n' ∉ cs) (hs : s ≠ [])
    (hcs : cs = s ++ after) : next after = none := by
  induction cs generalizing s with
  | nil => exact absurd (List.append_eq_nil_iff.mp hcs.symm).1 hs
  | cons c cs ih =>
    obtain ⟨hc, hline⟩ : '\n' ≠ c ∧ '\n' ∉ cs := by simpa using hline
    obtain ⟨x, s, rfl⟩ := List.exists_cons_of_ne_nil hs
    rw [List.cons_append] at hcs
    obtain ⟨rfl, rfl⟩ := List.cons.inj hcs
    rw [wildcard, if_neg (Ne.symm hc)] at h
    cases hrest : wildcard next (s ++ after) with
    | some found => simp [hrest] at h
    | none =>
      rw [hrest] at h
      by_cases hnil : s = []
      · subst hnil
        exact Option.map_eq_none_iff.mp h
      · exact ih hrest hline hnil rfl

theorem exists_cons_of_lt_length {n : Nat} {longer : List Char} (h : n < longer.length) :
    ∃ x rest, longer = x :: rest :=
  List.exists_cons_of_ne_nil (List.ne_nil_of_length_pos (Nat.zero_lt_of_lt h))

/-- A wildcard takes a text after which there is a way to go on, and there is none after a longer
one. -/
theorem wildcard_eq_some (h : wildcard next cs = some (s, others)) (hline : '\n' ∉ cs) :
    s ≠ [] ∧ ∃ after, cs = s ++ after ∧ next after = some others
      ∧ ∀ longer after', cs = longer ++ after' → s.length < longer.length → next after' = none := by
  induction cs generalizing s with
  | nil => simp [wildcard] at h
  | cons c cs ih =>
    obtain ⟨hc, hline⟩ : '\n' ≠ c ∧ '\n' ∉ cs := by simpa using hline
    rw [wildcard, if_neg (Ne.symm hc)] at h
    cases hrest : wildcard next cs with
    | some found =>
      obtain ⟨taken, others'⟩ := found
      simp only [hrest, Option.some.injEq, Prod.mk.injEq] at h
      obtain ⟨rfl, rfl⟩ := h
      obtain ⟨-, after, hcs, hnext, hlonger⟩ := ih hrest hline
      refine ⟨by simp, after, by rw [hcs, List.cons_append], hnext, ?_⟩
      intro longer after' hvalue hlength
      obtain ⟨x, longer, rfl⟩ := exists_cons_of_lt_length hlength
      exact hlonger longer after' (List.cons.inj hvalue).2 (by simpa using hlength)
    | none =>
      -- nothing longer than this one character leads on
      simp only [hrest, Option.map_eq_some_iff, Prod.mk.injEq] at h
      obtain ⟨others', hnext, rfl, rfl⟩ := h
      refine ⟨by simp, cs, rfl, hnext, ?_⟩
      intro longer after' hvalue hlength
      obtain ⟨x, longer, rfl⟩ := exists_cons_of_lt_length hlength
      have hne : longer ≠ [] := List.ne_nil_of_length_pos (by simpa using hlength)
      exact next_eq_none_of_wildcard hrest hline hne (List.cons.inj hvalue).2

end Wildcard

/-- A match lets a wildcard take a text behind the head, and matches the rest as the pattern that
starts with the next literal part. -/
theorem match?_cons (head literal : List Char) (tail : List (List Char)) (value : List Char) :
    match? ⟨head, literal :: tail⟩ value
      = (Text.dropStart? head value).bind fun cs =>
          (wildcard (match? ⟨literal, tail⟩) cs).map fun found => found.1 :: found.2 := rfl

/-- A match gives the greatest way, and fails only where there is none. -/
theorem match?_cases (pattern : Pattern) (hline : '\n' ∉ value) :
    (∀ captures, pattern.match? value = some captures → pattern.IsGreatest value captures)
      ∧ (pattern.match? value = none → ∀ captures, ¬pattern.Decomposes value captures) := by
  obtain ⟨head, tail⟩ := pattern
  induction tail generalizing head value with
  | nil =>
    have hmatch : match? ⟨head, []⟩ value
        = (Text.dropStart? head value).bind fun cs =>
            if cs = [] || cs = ['\n'] then some [] else none := rfl
    constructor
    · intro captures h
      obtain ⟨cs, hcs, hend⟩ := Option.bind_eq_some_iff.mp (hmatch ▸ h)
      obtain rfl := Text.dropStart?_eq_some_iff.mp hcs
      obtain ⟨hcs, rfl⟩ : (cs = [] ∨ cs = ['\n']) ∧ [] = captures := by simpa using hend
      obtain rfl : cs = [] := hcs.resolve_right fun hcs => hline (by simp [hcs])
      refine ⟨decomposes_nil.mpr ⟨rfl, by simp⟩, ?_⟩
      intro others hothers
      rw [(decomposes_nil.mp hothers).1]
    · intro h captures hcaptures
      obtain ⟨-, rfl⟩ := decomposes_nil.mp hcaptures
      have hdrop : Text.dropStart? value value = some [] :=
        Text.dropStart?_eq_some_iff.mpr (List.append_nil value).symm
      simp [hmatch, hdrop] at h
  | cons literal tail ih =>
    constructor
    · intro captures h
      rw [match?_cons] at h
      obtain ⟨cs, hcs, hwild⟩ := Option.bind_eq_some_iff.mp h
      obtain rfl := Text.dropStart?_eq_some_iff.mp hcs
      obtain ⟨⟨s, others⟩, htaken, rfl⟩ := Option.map_eq_some_iff.mp hwild
      have hcs : '\n' ∉ cs := fun hmem => hline (List.mem_append_right _ hmem)
      obtain ⟨hs, after, rfl, hnext, hlonger⟩ := wildcard_eq_some htaken hcs
      have hafter : '\n' ∉ after := fun hmem => hcs (List.mem_append_right _ hmem)
      obtain ⟨hfirst, -⟩ := ih hafter literal
      obtain ⟨hothers, hgreatest⟩ := hfirst others hnext
      refine ⟨decomposes_cons.mpr ⟨s, others, after, rfl, hs, rfl, hothers⟩, ?_⟩
      intro captures' hcaptures'
      obtain ⟨s', others', after', rfl, -, hvalue, hothers'⟩ := decomposes_cons.mp hcaptures'
      have hvalue := List.append_cancel_left hvalue
      rw [List.map_cons, List.map_cons]
      rcases Nat.lt_trichotomy s'.length s.length with hlt | heq | hgt
      · exact le_of_lt (List.Lex.rel hlt)
      · obtain ⟨rfl, rfl⟩ := List.append_inj hvalue heq.symm
        exact List.cons_le_cons _ (hgreatest others' hothers')
      · -- after a longer text the rest of the pattern has failed, so there is no way
        have hafter' : '\n' ∉ after' := fun hmem => hcs (hvalue ▸ List.mem_append_right _ hmem)
        exact absurd hothers' ((ih hafter' literal).2 (hlonger s' after' hvalue hgt) others')
    · intro h captures hcaptures
      obtain ⟨s, others, after, rfl, hs, rfl, hothers⟩ := decomposes_cons.mp hcaptures
      have hcs : '\n' ∉ s ++ after := fun hmem => hline (List.mem_append_right _ hmem)
      have hafter : '\n' ∉ after := fun hmem => hcs (List.mem_append_right _ hmem)
      have hdrop : Text.dropStart? head (head ++ (s ++ after)) = some (s ++ after) :=
        Text.dropStart?_eq_some_iff.mpr rfl
      rw [match?_cons, hdrop, Option.bind_some, Option.map_eq_none_iff] at h
      exact (ih hafter literal).2 (next_eq_none_of_wildcard h hcs hs rfl) others hothers

/-- What a match gives is the greatest way. -/
theorem match?_eq_some_iff (hline : '\n' ∉ value) :
    pattern.match? value = some captures ↔ pattern.IsGreatest value captures := by
  obtain ⟨hsome, hnone⟩ := pattern.match?_cases hline
  refine ⟨hsome captures, fun h => ?_⟩
  cases hmatch : pattern.match? value with
  | none => exact absurd h.decomposes (hnone hmatch captures)
  | some found =>
    have hfound := hsome found hmatch
    have hlengths := le_antisymm (hfound.greatest _ h.decomposes) (h.greatest _ hfound.decomposes)
    rw [h.decomposes.eq_of_lengths hfound.decomposes hlengths]

/-- There is a match where there is a way. -/
theorem exists_match?_iff (hline : '\n' ∉ value) :
    (∃ captures, pattern.match? value = some captures)
      ↔ ∃ captures, pattern.Decomposes value captures := by
  constructor
  · rintro ⟨captures, h⟩
    exact ⟨captures, ((match?_eq_some_iff hline).mp h).decomposes⟩
  · rintro ⟨captures, h⟩
    cases hmatch : pattern.match? value with
    | none => exact absurd h ((pattern.match?_cases hline).2 hmatch captures)
    | some found => exact ⟨found, rfl⟩

/-! ### Texts -/

/-- The captures of a text are those of its characters. -/
theorem captures?_eq_some_iff {value : String} {captures : List String} :
    pattern.captures? value = some captures
      ↔ pattern.match? value.toList = some (captures.map String.toList) := by
  rw [captures?, Option.map_eq_some_iff]
  constructor
  · rintro ⟨found, hfound, rfl⟩
    simpa [Function.comp_def] using hfound
  · intro h
    exact ⟨_, h, by simp [Function.comp_def]⟩

/-- The literal parts of the pattern in a text are what its asterisks separate, whatever other
characters they hold. A value without line feeds matches where it can be read as the pattern in some
way, and what the wildcards then stand for is the greatest of all ways, by their lengths from the
first on. -/
theorem captures_greatest (pattern value : String) (hline : '\n' ∉ value.toList) :
    let parts := ofText pattern
    parts.head :: parts.tail = pattern.toList.splitOn '*'
      ∧ ((∃ captures, parts.captures? value = some captures)
          ↔ ∃ captures, parts.Decomposes value.toList captures)
      ∧ ∀ captures, parts.captures? value = some captures
          ↔ parts.IsGreatest value.toList (captures.map String.toList) := by
  intro parts
  refine ⟨(Text.splitOn_eq_pieces '*' pattern.toList).symm, ?_, fun captures => ?_⟩
  · rw [← exists_match?_iff hline]
    constructor
    · rintro ⟨captures, h⟩
      exact ⟨_, captures?_eq_some_iff.mp h⟩
    · rintro ⟨captures, h⟩
      exact ⟨captures.map String.ofList, by simp [captures?, h]⟩
  · rw [captures?_eq_some_iff, match?_eq_some_iff hline]

/-- Two wildcards stand side by side, and the letter in front of them occurs three times. -/
theorem captures_of_banana :
    '\n' ∉ "xbanana".toList
      ∧ (ofText "x*a**").IsGreatest "xbanana".toList (["ban", "n", "a"].map String.toList) := by
  have hline : '\n' ∉ "xbanana".toList := by decide
  obtain ⟨-, -, hcaptures⟩ := captures_greatest "x*a**" "xbanana" hline
  exact ⟨hline, (hcaptures _).mp (by decide)⟩

end Pattern

end PackageLint
