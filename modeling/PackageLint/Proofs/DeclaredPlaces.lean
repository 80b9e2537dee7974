import PackageLint.Proofs.DeclarationPairing

/-!
# The places of declarations

What a request leads to has a place, and two things hang on it. Requests that lead to one place are
looked at once, where places are told apart by a text; and a declaration of a wrong format is expected at
another place, which is the one that was found with the condition put in. The place is found below the
root entry, and only the root entry may hold keys of any kind. So the texts of two places differ although
the keys of the root may hold dots, and what is put in comes behind the root although its keys may be
those that decide where it goes.

## Main definitions

* `Declarations.suffixes` — what the text of a place may end in
* `Declarations.EndsFirst` — a key stands at the end of a list and nowhere before
* `Declarations.BeforeLast` — a list with a key put before its last one

## Main results

* `Declarations.seen_places_apart` — one text is one place and one suffix, and what is passed over led to
  a place that was seen
* `Declarations.expected_place_exact` — where a condition is put into a place
-/

namespace PackageLint.Declarations

variable {root : Root} {request other : Request} {found found' : ConditionTree.Resolved}

/-! ### Places that were seen -/

/-- What the text of a place may end in: nothing, or a condition. -/
def suffixes : List String := ["", "import", "require"]

theorem exists_mark {suffix : String} (h : suffix ∈ suffixes) : ∃ mark, markText mark = suffix := by
  have hall : ∀ suffix ∈ suffixes,
      ∃ mark ∈ [none, some Condition.import, some .require], markText mark = suffix := by
    decide
  obtain ⟨mark, -, hmark⟩ := hall suffix h
  exact ⟨mark, hmark⟩

/-- The text of a place with a suffix tells both, whatever keys the root entry has. -/
theorem suffixed_place_injective (hrequest : request ∈ requests) (hother : other ∈ requests)
    (hfound : root.types request = some found) (hfound' : root.types other = some found')
    {suffix suffix' : String} (hsuffix : suffix ∈ suffixes) (hsuffix' : suffix' ∈ suffixes)
    (h : Text.join "." found.location ++ suffix = Text.join "." found'.location ++ suffix') :
    found.location = found'.location ∧ suffix = suffix' := by
  obtain ⟨mark, rfl⟩ := exists_mark hsuffix
  obtain ⟨mark', rfl⟩ := exists_mark hsuffix'
  obtain ⟨hplace, rfl⟩ :=
    (marked_place_eq_iff hrequest hother hfound hfound' mark mark').mp h
  exact ⟨hplace, rfl⟩

/-- For every root entry at whatever place, no two of the requests lead to places whose texts, each with
a suffix behind it, are the same, unless both the places and the suffixes are the same. So a request is
passed over exactly when one before it led to the same place with the same mark. -/
theorem seen_places_apart (root : Root) :
    (∀ request ∈ requests, ∀ other ∈ requests,
      ∀ found ∈ root.types request, ∀ found' ∈ root.types other,
        ∀ suffix ∈ suffixes, ∀ suffix' ∈ suffixes,
          Text.join "." found.location ++ suffix = Text.join "." found'.location ++ suffix' →
            found.location = found'.location ∧ suffix = suffix')
      ∧ ∀ request ∈ requests, ∀ found ∈ root.types request,
          (request ∈ root.kept [] requests
            ↔ ∀ earlier ∈ request.before, ∀ found' ∈ root.types earlier,
                found'.location = found.location → root.mark earlier ≠ root.mark request) := by
  refine ⟨?_, fun request hrequest found hfound => mem_kept_iff_places hrequest hfound⟩
  intro request hrequest other hother found hfound found' hfound' suffix hsuffix suffix' hsuffix' h
  exact suffixed_place_injective hrequest hother hfound hfound' hsuffix hsuffix' h

/-- Two requests whose texts would be one if a key could end in a condition, and one that is passed over
since the first of them led to its place. -/
theorem default_types_apart :
    let root : Root :=
      { tree := .map [("types", .map [("import", .leaf "./a.d.mts"), ("default", .leaf "./a.d.ts")])]
        location := ["exports", "a.types"] }
    let found : ConditionTree.Resolved := ⟨"./a.d.mts", ["exports", "a.types", "types", "import"]⟩
    let found' : ConditionTree.Resolved := ⟨"./a.d.ts", ["exports", "a.types", "types", "default"]⟩
    root.types ⟨none, .import⟩ = some found ∧ root.types ⟨none, .require⟩ = some found'
      ∧ Text.join "." found.location ++ "" ≠ Text.join "." found'.location ++ "import"
      ∧ (⟨some "node", .import⟩ : Request) ∉ root.kept [] requests := by
  intro root found found'
  obtain ⟨hapart, hkept⟩ := seen_places_apart root
  have hfound : root.types ⟨none, .import⟩ = some found := by decide
  have hfound' : root.types ⟨none, .require⟩ = some found' := by decide
  refine ⟨hfound, hfound', fun heq => ?_, fun hmem => ?_⟩
  · have hsame := hapart ⟨none, .import⟩ (by decide) ⟨none, .require⟩ (by decide) found hfound
      found' hfound' "" (by decide) "import" (by decide) heq
    exact absurd hsame.2 (by decide)
  · have hfirst := (hkept ⟨some "node", .import⟩ (by decide) found (by decide)).mp hmem
    exact hfirst ⟨none, .import⟩ (by decide) found hfound rfl (by decide)

/-! ### Where a declaration is expected -/

section

variable {key condition : String} {front location : Location}

/-- Whether a key stands at the end of a list and nowhere before. -/
def EndsFirst (key : String) (keys : Location) : Prop := ∃ front, keys = front ++ [key] ∧ key ∉ front

/-- Whether a list is another one with a key put before the last one. -/
def BeforeLast (key : String) (keys keys' : Location) : Prop :=
  ∃ front last, keys = front ++ [last] ∧ keys' = front ++ [key, last]

/-- The keys before the first one of a kind are all but one exactly when that one is the last. -/
theorem length_takeWhile_iff :
    (location.takeWhile (· ≠ key)).length + 1 = location.length ↔ EndsFirst key location := by
  constructor
  · intro hlength
    have hparts := List.takeWhile_append_dropWhile (p := (· ≠ key)) (l := location)
    have hrest : (location.dropWhile (· ≠ key)).length = 1 := by
      have := congrArg List.length hparts
      rw [List.length_append] at this
      omega
    obtain ⟨last, hlast⟩ := List.length_eq_one_iff.mp hrest
    have hkey : last = key := by
      have hne : location.dropWhile (· ≠ key) ≠ [] := hlast ▸ List.cons_ne_nil _ _
      have hstops := List.head_dropWhile_not (· ≠ key) hne
      simpa only [hlast, List.head_cons, ne_eq, decide_eq_false_iff_not, Decidable.not_not]
        using hstops
    refine ⟨location.takeWhile (· ≠ key), ?_, fun hmem => ?_⟩
    · rw [← hkey, ← hlast, hkey, hparts]
    · simpa using List.mem_takeWhile_imp hmem
  · rintro ⟨front, rfl, hfront⟩
    have htake : (front ++ [key]).takeWhile (· ≠ key) = front := by
      rw [List.takeWhile_append_of_pos fun k hk => by simpa using ne_of_mem_of_not_mem hk hfront]
      simp
    rw [htake, List.length_append, List.length_singleton]

theorem expectedLocation_of_mem (h : condition ∈ location) :
    expectedLocation location condition = location := by
  rw [expectedLocation, if_pos (List.contains_iff_mem.mpr h)]

theorem expectedLocation_of_endsFirst (h : condition ∉ front ++ ["types"])
    (hfront : "types" ∉ front) :
    expectedLocation (front ++ ["types"]) condition = front ++ [condition, "types"] := by
  have hlength := length_takeWhile_iff.mpr ⟨front, rfl, hfront⟩
  rw [expectedLocation, if_neg (by simpa using h), if_pos hlength]
  simp

theorem expectedLocation_of_not_endsFirst (h : condition ∉ location)
    (hend : ¬ EndsFirst "types" location) :
    expectedLocation location condition = location ++ [condition] := by
  rw [expectedLocation, if_neg (by simpa using h), if_neg (mt length_takeWhile_iff.mp hend)]

theorem mem_expectedLocation (condition : String) (location : Location) :
    condition ∈ expectedLocation location condition := by
  by_cases h : condition ∈ location
  · rwa [expectedLocation_of_mem h]
  · by_cases hend : EndsFirst "types" location
    · obtain ⟨front, rfl, hfront⟩ := hend
      simp [expectedLocation_of_endsFirst h hfront]
    · simp [expectedLocation_of_not_endsFirst h hend]

/-- A condition that is missing goes before the last key exactly when that is the first `types`. -/
theorem beforeLast_iff (h : condition ∉ location) :
    BeforeLast condition location (expectedLocation location condition)
      ↔ EndsFirst "types" location := by
  constructor
  · rintro ⟨front, last, rfl, hexpected⟩
    by_contra hend
    rw [expectedLocation_of_not_endsFirst h hend] at hexpected
    obtain ⟨hlast, -⟩ : last = condition ∧ condition = last := by simpa using hexpected
    exact h (by simp [hlast])
  · rintro ⟨front, rfl, hfront⟩
    exact ⟨front, "types", rfl, expectedLocation_of_endsFirst h hfront⟩

/-- Otherwise it goes to the end. -/
theorem expectedLocation_eq_concat_iff (h : condition ∉ location) :
    expectedLocation location condition = location ++ [condition] ↔ ¬ EndsFirst "types" location := by
  refine ⟨fun hexpected hend => ?_, expectedLocation_of_not_endsFirst h⟩
  obtain ⟨front, last, rfl, hbefore⟩ := (beforeLast_iff h).mpr hend
  rw [hbefore] at hexpected
  obtain ⟨-, hlast⟩ : condition = last ∧ last = condition := by simpa using hexpected
  exact h (by simp [hlast])

/-- Below a place that does not end in `types` the condition is put behind that place. -/
theorem exists_expectedLocation_append {place : Location} (condition : String) (keys : Location)
    (hplace : place.getLast? ≠ some "types") :
    ∃ keys', expectedLocation (place ++ keys) condition = place ++ keys'
      ∧ ∀ key ∈ keys', key ∈ keys ∨ key = condition := by
  by_cases h : condition ∈ place ++ keys
  · exact ⟨keys, expectedLocation_of_mem h, fun key hkey => Or.inl hkey⟩
  by_cases hend : EndsFirst "types" (place ++ keys)
  · obtain ⟨front, hfront, hfirst⟩ := hend
    -- the last key is not one of the place, which does not end in `types`
    obtain rfl | ⟨keys, last, rfl⟩ := List.eq_nil_or_concat' keys
    · refine absurd ?_ hplace
      rw [← List.append_nil place, hfront, List.getLast?_concat]
    rw [← List.append_assoc] at hfront
    obtain ⟨rfl, hlast⟩ := List.append_inj' hfront rfl
    obtain rfl : last = "types" := by simpa using hlast
    rw [← List.append_assoc] at h ⊢
    refine ⟨keys ++ [condition, "types"], ?_, fun key hkey => ?_⟩
    · rw [expectedLocation_of_endsFirst h hfirst, List.append_assoc]
    · simp only [List.mem_append, List.mem_cons, List.not_mem_nil, or_false] at hkey ⊢
      tauto
  · refine ⟨keys ++ [condition], ?_, fun key hkey => by simpa using hkey⟩
    rw [expectedLocation_of_not_endsFirst h hend, List.append_assoc]

end

/-- A condition is put into a place once, when it is missing: before the last key exactly when that is the
first `types`, and else at the end; the condition is in the result, and is not put in again. Where a tree
is resolved under conditions among which it is, at a place that does not end in `types`, the expected
place lies below that of the tree, and is reached through the conditions, `default` and first items
only. -/
theorem expected_place_exact (condition : String) :
    (∀ location : Location,
      condition ∈ expectedLocation location condition
        ∧ (condition ∈ location → expectedLocation location condition = location)
        ∧ (condition ∉ location →
            (BeforeLast condition location (expectedLocation location condition)
                ↔ EndsFirst "types" location)
              ∧ (expectedLocation location condition = location ++ [condition]
                ↔ ¬ EndsFirst "types" location))
        ∧ expectedLocation (expectedLocation location condition) condition
            = expectedLocation location condition)
      ∧ ∀ (root : Root) (conditions : List String) (found : ConditionTree.Resolved),
          root.location.getLast? ≠ some "types" → condition ∈ conditions →
            root.resolve conditions = some found →
              ∃ keys, expectedLocation found.location condition = root.location ++ keys
                ∧ ∀ key ∈ keys, key = "default" ∨ key = "0" ∨ key ∈ conditions := by
  constructor
  · intro location
    have hmem := mem_expectedLocation condition location
    exact ⟨hmem, expectedLocation_of_mem,
      fun h => ⟨beforeLast_iff h, expectedLocation_eq_concat_iff h⟩, expectedLocation_of_mem hmem⟩
  · intro root conditions found hlast hcondition hfound
    obtain ⟨keys, hlocation, hkeys, -⟩ := ConditionTree.keys_of_resolve hfound
    obtain ⟨keys', hexpected, hkeys'⟩ := exists_expectedLocation_append condition keys hlast
    refine ⟨keys', hlocation ▸ hexpected, fun key hkey => ?_⟩
    rcases hkeys' key hkey with hkey | rfl
    · simpa using hkeys hkey
    · exact Or.inr (Or.inr hcondition)

/-- A list of declarations under `types`, in a root entry that has a key of its own: what is found in it is
expected under a condition behind the root, and what stands under `types` itself before that key. -/
theorem types_expected_under_import :
    let root : Root :=
      { tree := .map [("types", .array [.leaf "./a.d.ts"])], location := ["exports", "."] }
    let found : ConditionTree.Resolved := ⟨"./a.d.ts", ["exports", ".", "types", "0"]⟩
    root.location.getLast? ≠ some "types" ∧ root.resolve ["types", "import"] = some found
      ∧ (∃ keys, expectedLocation found.location "import" = root.location ++ keys
          ∧ ∀ key ∈ keys, key = "default" ∨ key = "0" ∨ key ∈ ["types", "import"])
      ∧ BeforeLast "import" ["exports", "types"] (expectedLocation ["exports", "types"] "import") := by
  intro root found
  obtain ⟨hinserts, hbelow⟩ := expected_place_exact "import"
  have hlast : root.location.getLast? ≠ some "types" := by decide
  have hfound : root.resolve ["types", "import"] = some found := by decide
  have hmissing : "import" ∉ ["exports", "types"] := by decide
  exact ⟨hlast, hfound, hbelow root _ _ hlast (by decide) hfound,
    ((hinserts ["exports", "types"]).2.2.1 hmissing).1.mpr ⟨["exports"], rfl, by decide⟩⟩

end PackageLint.Declarations
