import PackageLint.Proofs.CrawlLeaves
import PackageLint.Proofs.Mirrors
import PackageLint.Proofs.Selections

/-!
# Declarations in passes that mirror each other

The root entry of an exports tree is resolved under several conditions, and what is found is examined
once for each place. In passes that mirror each other the root entries resolve alike when they yield the
same targets at places that are moved, and when moving a place keeps apart what was told apart before:
the places found in one tree may only differ from those in the other by what they start with.

## Main definitions

* `Declarations.knownConditions` — the conditions under which a root entry is resolved
* `Declarations.SameRoot` — two root entries that resolve alike

## Main results

* `ConditionTree.resolve_move` — resolving a tree at a moved place
* `ConditionTree.at?_of_resolve` — what is resolved is a leaf of the tree
* `Mirror.agree_declarations` — the check of a root entry
-/

namespace PackageLint

open Diagnostic (move)

/-! ### Resolving at a moved place -/

namespace ConditionTree

variable {m : Location → Location}

/-- A target with its place moved. -/
def Resolved.move (m : Location → Location) (found : Resolved) : Resolved :=
  { found with location := m found.location }

mutual

theorem resolve_move (conditions : List String) {location : Location} (hm : location.Carries m)
    (tree : ConditionTree) :
    resolve conditions (m location) tree
      = (resolve conditions location tree).map (Resolved.move m) := by
  cases tree with
  | leaf target => rfl
  | array items =>
    cases items with
    | nil => rfl
    | cons first rest =>
      rw [resolve, resolve, ← hm.concat, resolve_move conditions (hm.below _) first]
  | map entries => exact resolveEntries_move conditions hm entries
  | exclusion => rfl
  | invalid value => rfl

theorem resolveEntries_move (conditions : List String) {location : Location}
    (hm : location.Carries m) (entries : List (String × ConditionTree)) :
    resolveEntries conditions (m location) entries
      = (resolveEntries conditions location entries).map (Resolved.move m) := by
  cases entries with
  | nil => rfl
  | cons entry rest =>
    obtain ⟨key, tree⟩ := entry
    have hrest := resolveEntries_move conditions hm rest
    have hkey := resolve_move conditions (hm.below [key]) tree
    rw [resolveEntries, resolveEntries, ← hm.concat, hkey, hrest]
    split
    · rfl
    · split
      · cases resolve conditions (location ++ [key]) tree <;> rfl
      · rfl

end

variable {conditions : List String} {location place : Location} {tree : ConditionTree}
  {found : Resolved} {target : String}

/-- An open way leads to a leaf. -/
theorem IsOpen.at?_eq (hd : tree.DistinctKeys) (h : tree.IsOpen conditions place target) :
    tree.at? place = some (.leaf target) := by
  induction h with
  | leaf value => exact at?_nil _
  | @first first items _ _ _ ih =>
    have hfirst : Location.item? "0" 0 (first :: items) = some first := by
      rw [Location.item?, if_pos (by decide)]
    rw [at?, hfirst, Option.bind_some, ih hd.1]
  | @entry front key tree back _ _ _ _ _ ih =>
    have hmem : (key, tree) ∈ front ++ (key, tree) :: back := by simp
    rw [at?, Assoc.get?_of_mem hd.1 hmem, Option.bind_some, ih (entriesDistinct_iff.mp hd.2 _ hmem)]

/-- What is resolved is a leaf of the tree. -/
theorem at?_of_resolve (hd : tree.DistinctKeys) (h : resolve conditions location tree = some found) :
    ∃ place, found.location = location ++ place ∧ tree.at? place = some (.leaf found.target) := by
  obtain ⟨place, hplace, hopen⟩ := isOpen_of_resolve h
  exact ⟨place, hplace, hopen.at?_eq hd⟩

/-- The same for entries whose keys need not differ. -/
theorem at?_of_resolveEntries {entries : List (String × ConditionTree)}
    (hd : EntriesDistinct entries) (h : resolveEntries conditions location entries = some found) :
    ∃ key tree, (key, tree) ∈ entries ∧ ∃ place, found.location = location ++ key :: place
      ∧ tree.at? place = some (.leaf found.target) := by
  obtain ⟨_, hplace, hmap⟩ := resolveEntries_eq_some_iff.mp h
  obtain ⟨front, key, tree, back, rfl, -, ⟨place, rfl, hselects⟩, -⟩ := selects_map.mp hmap
  have hmem : (key, tree) ∈ front ++ (key, tree) :: back := by simp
  exact ⟨key, tree, hmem, place, hplace, hselects.isOpen.at?_eq (entriesDistinct_iff.mp hd _ hmem)⟩

end ConditionTree

/-! ### Root entries -/

namespace Declarations

variable {m : Location → Location} {root root' : Root}

/-- The conditions under which a root entry is resolved. -/
def knownConditions : List String := ["types", "import", "require", "node", "browser", "worker"]

/-- The root entry of a tree, moved with it. -/
def Root.move (m : Location → Location) (root : Root) : Root :=
  { root with location := m root.location }

/-- Two root entries resolve alike, and moving what they yield keeps it apart and leaves it where
declarations are expected. -/
structure SameRoot (m : Location → Location) (root root' : Root) : Prop where
  resolve : ∀ conditions, conditions ⊆ knownConditions →
    root'.resolve conditions = (root.resolve conditions).map (ConditionTree.Resolved.move m)
  expected : ∀ conditions, conditions ⊆ knownConditions → ∀ found,
    root.resolve conditions = some found → ∀ condition : Condition,
      m (expectedLocation found.location condition.key)
        = expectedLocation (m found.location) condition.key
  apart : ∃ start : String, ∀ conditions, conditions ⊆ knownConditions → ∀ found,
    root.resolve conditions = some found →
      Text.join "." found.location = start ++ Text.join "." (m found.location)

theorem conditions_subset {request : Request} (h : request ∈ requests) :
    "types" :: request.condition.key :: request.environment.toList ⊆ knownConditions := by
  have hall : ∀ request ∈ requests,
      "types" :: request.condition.key :: request.environment.toList ⊆ knownConditions := by decide
  exact hall request h

namespace SameRoot

variable (hs : SameRoot m root root') {request : Request} (h : request ∈ requests)

include hs h

theorem types : root'.types request = (root.types request).map (ConditionTree.Resolved.move m) :=
  hs.resolve _ (conditions_subset h)

omit h in
theorem code {environment : Option String} (he : environment ∈ environments)
    (condition : Condition) :
    root'.code environment condition
      = (root.code environment condition).map (ConditionTree.Resolved.move m) := by
  have hall : ∀ environment ∈ environments, ∀ condition : Condition,
      condition.key :: environment.toList ⊆ knownConditions := by
    intro environment he condition
    fin_cases he <;> cases condition <;> decide
  exact hs.resolve _ (hall environment he condition)

omit hs in
theorem environment_mem : request.environment ∈ environments := by
  have hall : ∀ request ∈ requests, request.environment ∈ environments := by decide
  exact hall request h

theorem isDual : root'.isDual request.environment = root.isDual request.environment := by
  have he := environment_mem h
  rw [Root.isDual, Root.isDual, hs.code he, hs.code he]
  cases root.code request.environment .import <;> cases root.code request.environment .require <;> rfl

end SameRoot

/-! ### Root entries at moved places -/

/-- Keys that are neither a condition nor `types` stay in front of the place of a declaration. -/
theorem expectedLocation_append {front : Location} {condition : String}
    (hcondition : condition ∉ front) (htypes : "types" ∉ front) (keys : Location) :
    expectedLocation (front ++ keys) condition = front ++ expectedLocation keys condition := by
  induction front with
  | nil => rfl
  | cons key rest ih =>
    obtain ⟨hkey, hrest⟩ : condition ≠ key ∧ condition ∉ rest := by simpa using hcondition
    obtain ⟨hkey', hrest'⟩ : "types" ≠ key ∧ "types" ∉ rest := by simpa using htypes
    rw [List.cons_append, List.cons_append, ← ih hrest hrest']
    generalize rest ++ keys = l
    have hcontains : (key :: l).contains condition = l.contains condition := by
      simp [hkey]
    have htake : (key :: l).takeWhile (· ≠ "types") = key :: l.takeWhile (· ≠ "types") := by
      rw [List.takeWhile_cons, if_pos (by simpa using Ne.symm hkey')]
    rw [expectedLocation, expectedLocation, hcontains, htake]
    split
    · rfl
    · cases l with
      | nil => simp
      | cons next others =>
        simp only [List.length_cons, Nat.add_right_cancel_iff, Nat.add_sub_cancel]
        split <;> rfl

theorem join_cons {sep s : String} {rest : List String} (hne : rest ≠ []) :
    Text.join sep (s :: rest) = s ++ sep ++ Text.join sep rest := by
  cases rest with
  | nil => exact absurd rfl hne
  | cons next others => rfl

/-- Root entries that resolve to the same, where all places that count are left as they are. -/
theorem sameRoot_of_fixed
    (hresolve : ∀ conditions, conditions ⊆ knownConditions →
      root'.resolve conditions = root.resolve conditions)
    (hfixed : ∀ conditions, conditions ⊆ knownConditions → ∀ found,
      root.resolve conditions = some found → m found.location = found.location)
    (hexpected : ∀ conditions, conditions ⊆ knownConditions → ∀ found,
      root.resolve conditions = some found → ∀ condition : Condition,
        m (expectedLocation found.location condition.key)
          = expectedLocation found.location condition.key) : SameRoot m root root' where
  resolve conditions hconditions := by
    rw [hresolve conditions hconditions]
    cases hfound : root.resolve conditions with
    | none => rfl
    | some found =>
      rw [Option.map_some, ConditionTree.Resolved.move, hfixed conditions hconditions found hfound]
  expected conditions hconditions found hfound condition := by
    rw [hexpected conditions hconditions found hfound, hfixed conditions hconditions found hfound]
  apart := ⟨"", fun conditions hconditions found hfound => by
    rw [hfixed conditions hconditions found hfound, String.empty_append]⟩

theorem root?_move {location : Location} (hm : location.Carries m) (exports : ConditionTree) :
    root? exports (m location) = (root? exports location).map (Root.move m) := by
  cases exports with
  | map entries =>
    cases entries with
    | nil => rfl
    | cons entry rest =>
      simp only [root?]
      split
      · rw [Option.map_map, ← hm.concat]
        rfl
      · rfl
  | _ => rfl

/-- The root entry of a tree at a place that names no condition, and the same entry at the moved
place. A move may only take keys away in front. -/
theorem sameRoot_move {root : Root} {location location' : Location}
    (hm : ∀ keys, m (location ++ keys) = location' ++ keys)
    (hroot : ∃ keys, root.location = location ++ keys) (hd : root.tree.DistinctKeys)
    (hplain : ∀ key ∈ knownConditions, key ∉ location ∧ key ∉ location')
    (hapart : ∃ start : String, ∀ keys,
      Text.join "." (location ++ keys) = start ++ Text.join "." (location' ++ keys)) :
    SameRoot m root (root.move m) := by
  obtain ⟨front, hfront⟩ := hroot
  have hplace : ∀ conditions found, root.resolve conditions = some found →
      ∃ keys, found.location = location ++ keys := by
    intro conditions found hfound
    obtain ⟨place, hplace, -⟩ := ConditionTree.at?_of_resolve hd hfound
    exact ⟨front ++ place, by rw [hplace, hfront, List.append_assoc]⟩
  have hcarries : root.location.Carries m := by
    intro keys
    rw [hfront, List.append_assoc, hm, hm, List.append_assoc]
  obtain ⟨htypes, htypes'⟩ := hplain "types" (by decide)
  refine ⟨fun conditions _ => ConditionTree.resolve_move conditions hcarries root.tree, ?_, ?_⟩
  · intro conditions _ found hfound condition
    obtain ⟨keys, hkeys⟩ := hplace conditions found hfound
    obtain ⟨hcondition, hcondition'⟩ := hplain condition.key (by cases condition <;> decide)
    rw [hkeys, hm, expectedLocation_append hcondition htypes, hm,
      expectedLocation_append hcondition' htypes']
  · obtain ⟨start, hstart⟩ := hapart
    refine ⟨start, fun conditions _ found hfound => ?_⟩
    obtain ⟨keys, hkeys⟩ := hplace conditions found hfound
    rw [hkeys, hm, hstart]

/-- The root entry of a tree lies in the tree. -/
theorem root?_eq_some {exports : ConditionTree} {location : Location} {root : Root}
    (hd : exports.DistinctKeys) (h : root? exports location = some root) :
    ∃ keys, root.location = location ++ keys ∧ exports.at? keys = some root.tree
      ∧ root.tree.DistinctKeys := by
  have hself : ∀ {tree : ConditionTree}, tree.DistinctKeys →
      some { tree, location } = some root → ∃ keys, root.location = location ++ keys
        ∧ tree.at? keys = some root.tree ∧ root.tree.DistinctKeys := by
    intro tree htree heq
    obtain rfl := Option.some.inj heq
    exact ⟨[], (List.append_nil _).symm, ConditionTree.at?_nil _, htree⟩
  cases exports with
  | leaf target => exact hself hd h
  | array items => exact hself hd h
  | map entries =>
    cases entries with
    | nil => exact absurd h (by simp [root?])
    | cons entry rest =>
      rw [root?] at h
      split at h
      · obtain ⟨tree, hget, rfl⟩ := Option.map_eq_some_iff.mp h
        refine ⟨["."], rfl, by simp [ConditionTree.at?, hget], ?_⟩
        exact ConditionTree.entriesDistinct_iff.mp hd.2 _ (Assoc.mem_of_get? hget)
      · exact hself hd h
  | exclusion => exact absurd h (by simp [root?])
  | invalid value => exact absurd h (by simp [root?])

/-- What a root entry resolves to is a leaf of the tree. -/
theorem leaf_of_resolve {exports : ConditionTree} {location : Location} {root : Root}
    (hd : exports.DistinctKeys) (hroot : root? exports location = some root)
    {conditions : List String} {found : ConditionTree.Resolved}
    (hfound : root.resolve conditions = some found) :
    ∃ place, found.location = location ++ place
      ∧ exports.at? place = some (.leaf found.target) := by
  obtain ⟨above, habove, hat, hdistinct⟩ := root?_eq_some hd hroot
  obtain ⟨below, hbelow, hleaf⟩ := ConditionTree.at?_of_resolve hdistinct hfound
  refine ⟨above ++ below, ?_, ?_⟩
  · rw [hbelow, habove, List.append_assoc]
  · rw [ConditionTree.at?_append, hat, Option.bind_some, hleaf]

end Declarations

/-! ### The check of a root entry -/

namespace Mirror

open Declarations

variable {tree tree' : FileTree} {ctx ctx' : Context} (h : Mirror tree tree' ctx ctx')
  {m : Location → Location} {root root' : Root}

include h

theorem same_codeFormat {code : Option ConditionTree.Resolved}
    (hcode : ∀ found ∈ code, h.Fits found.target) :
    Check.Same (move m) tree tree' (codeFormat ctx code)
      (codeFormat ctx' (code.map (ConditionTree.Resolved.move m))) := by
  cases code with
  | none => exact .done rfl
  | some code =>
    have hp := h.within (hcode code rfl)
    change Check.Same _ _ _ (codeFormat ctx (some code))
      (codeFormat ctx' (some { code with location := m code.location }))
    simp only [codeFormat, Check.bind_eq]
    refine (h.same_isThere hp).bind_same fun there => ?_
    split
    · exact (h.same_expectedFormat hp).bind_same fun _ => .done rfl
    · exact .done rfl

theorem same_checkFormat {condition : Condition} {found : ConditionTree.Resolved}
    (hfits : h.Fits found.target)
    (hexpected : m (expectedLocation found.location condition.key)
      = expectedLocation (m found.location) condition.key)
    {code : Option ConditionTree.Resolved} (hcode : ∀ found ∈ code, h.Fits found.target) :
    Check.Same (move m) tree tree' (checkFormat ctx condition found code)
      (checkFormat ctx' condition (found.move m) (code.map (ConditionTree.Resolved.move m))) := by
  have hfinding (actual expected : Format) :
      move m (wrongFormat condition found actual expected)
        = wrongFormat condition (found.move m) actual expected := by
    rw [wrongFormat, wrongFormat, ConditionTree.Resolved.move, ← hexpected, ← Arg.move_strs m]
    rfl
  rw [checkFormat, checkFormat, Check.bind_eq, Check.bind_eq]
  refine (h.same_expectedDeclarationFormat (h.within hfits)).bind_same fun actual => ?_
  refine (h.same_codeFormat hcode).bind_same fun ofCode => ?_
  simp only
  split
  · exact .done rfl
  · exact Check.same_add (hfinding _ _)

theorem same_checkAdjacent {condition : Condition} {found : ConditionTree.Resolved}
    (hfits : h.Fits found.target) {shipped : String} (hshipped : h.Fits shipped) :
    Check.Same (move m) tree tree' (checkAdjacent ctx condition found shipped)
      (checkAdjacent ctx' condition (found.move m) shipped) := by
  have hplain (actual : Format) : ((notExported condition found shipped actual).args.map
      Prod.fst).all (!Diagnostic.placeArgs.contains ·) = true := by
    simp only [notExported]
    split <;> simp [Diagnostic.placeArgs]
  have hfinding (actual : Format) :
      move m (notExported condition found shipped actual)
        = notExported condition (found.move m) shipped actual := by
    rw [Diagnostic.move_of_plain (hplain actual)]
    rfl
  rw [checkAdjacent, checkAdjacent, Check.bind_eq, Check.bind_eq]
  refine (h.same_isThere (h.within (h.fits_adjacent hfits))).bind_same fun there => ?_
  split
  · exact .done rfl
  · refine (h.same_expectedDeclarationFormat (h.within hshipped)).bind_same fun actual => ?_
    exact Check.same_add (hfinding actual)

variable (hs : SameRoot m root root')
  (hfits : ∀ conditions found, root.resolve conditions = some found → h.Fits found.target)
  {shipped : String} (hshipped : h.Fits shipped)

include hs hfits hshipped

theorem same_examine {request : Request} (hrequest : request ∈ requests)
    {found : ConditionTree.Resolved} (hfound : root.types request = some found) :
    Check.Same (move m) tree tree' (examine ctx root shipped request found)
      (examine ctx' root' shipped request (found.move m)) := by
  have hconditions := conditions_subset hrequest
  have htarget : h.Fits found.target := hfits _ found hfound
  have hcode : (if root'.isDual request.environment then none
        else root'.code request.environment request.condition)
      = (if root.isDual request.environment then none
        else root.code request.environment request.condition).map (ConditionTree.Resolved.move m) := by
    rw [hs.isDual hrequest, hs.code (SameRoot.environment_mem hrequest)]
    split <;> rfl
  have hcodeFits : ∀ code ∈ (if root.isDual request.environment then none
      else root.code request.environment request.condition), h.Fits code.target := by
    intro code hmem
    split at hmem
    · simp at hmem
    · exact hfits _ code hmem
  rw [examine, examine, Check.bind_eq, Check.bind_eq]
  refine (h.same_isThere (h.within htarget)).bind_same fun there => ?_
  split
  · rw [show (found.move m).target = found.target from rfl]
    split
    · simp only [hcode]
      exact h.same_checkFormat htarget (hs.expected _ hconditions found hfound request.condition) hcodeFits
    · exact h.same_checkAdjacent htarget hshipped
  · exact .done rfl

/-- The requests in turn. What was seen in one pass was seen in the other. -/
theorem same_checkRequests {left : List Request} (hleft : left ⊆ requests) {start : String}
    (hstart : ∀ conditions, conditions ⊆ knownConditions → ∀ found,
      root.resolve conditions = some found →
        Text.join "." found.location = start ++ Text.join "." (m found.location))
    (seen : List String) :
    Check.Same (move m) tree tree'
      (checkRequests ctx root shipped (seen.map (start ++ ·)) left)
      (checkRequests ctx' root' shipped seen left) := by
  induction left generalizing seen with
  | nil => exact .done rfl
  | cons request rest ih =>
    obtain ⟨hrequest, hrest⟩ := List.cons_subset.mp hleft
    rw [checkRequests, checkRequests, hs.types hrequest]
    cases hfound : root.types request with
    | none => exact ih hrest seen
    | some found =>
      have hidentity : root.identity request found
          = start ++ root'.identity request (found.move m) := by
        rw [Root.identity, Root.identity, hstart _ (conditions_subset hrequest) found hfound, hs.isDual hrequest,
          String.append_assoc]
        rfl
      have hseen : (seen.map (start ++ ·)).contains (root.identity request found)
          = seen.contains (root'.identity request (found.move m)) := by
        rw [hidentity, Bool.eq_iff_iff, List.contains_iff_mem, List.contains_iff_mem, List.mem_map]
        simp
      simp only [Option.map_some, hseen]
      split
      · exact ih hrest seen
      · rw [Check.bind_eq, Check.bind_eq]
        refine (h.same_examine hs hfits hshipped hrequest hfound).bind_same fun _ => ?_
        rw [hidentity]
        exact ih hrest (_ :: seen)

omit hs hfits hshipped in
/-- The declaration that a package ships. -/
theorem agree_shippedDeclaration
    (hgiven : ∀ field ∈ EntryChecks.declarationFields,
      givenString ctx' field = givenString ctx field
        ∧ ∀ value, givenString ctx field = some value → h.Fits value) :
    Check.Agree (move m) tree tree'
      (fun shipped shipped' => shipped' = shipped ∧ ∀ value ∈ shipped, h.Fits value)
      (shippedDeclaration ctx) (shippedDeclaration ctx') := by
  obtain ⟨htypes, htypesFits⟩ := hgiven "types" (by decide)
  obtain ⟨htypings, htypingsFits⟩ := hgiven "typings" (by decide)
  have hsome : ∀ {value : String}, h.Fits value → ∀ v ∈ some value, h.Fits v := by
    rintro value hvalue v hv
    obtain rfl := Option.some.inj hv
    exact hvalue
  rw [shippedDeclaration, shippedDeclaration, htypes, htypings]
  cases hfirst : givenString ctx "types" with
  | some types => exact .done ⟨rfl, hsome (htypesFits types hfirst)⟩
  | none =>
    cases hsecond : givenString ctx "typings" with
    | some typings => exact .done ⟨rfl, hsome (htypingsFits typings hsecond)⟩
    | none =>
      simp only [Check.bind_eq]
      refine (h.agree_readQuietly (h.readAlike_within h.fits_declaration)).bind
        fun text text' htext => ?_
      rcases htext.cases with ⟨rfl, rfl⟩ | ⟨content, content', rfl, rfl, -⟩
      · exact .done ⟨rfl, by simp⟩
      · exact .done ⟨rfl, hsome h.fits_declaration⟩

omit hshipped in
/-- The check of a root entry. -/
theorem agree_rootEntry
    (hgiven : ∀ field ∈ EntryChecks.declarationFields,
      givenString ctx' field = givenString ctx field
        ∧ ∀ value, givenString ctx field = some value → h.Fits value) :
    Check.Same (move m) tree tree' (Declarations.check ctx root) (Declarations.check ctx' root') := by
  obtain ⟨start, hstart⟩ := hs.apart
  rw [Declarations.check, Declarations.check, Check.bind_eq, Check.bind_eq]
  refine (h.agree_shippedDeclaration hgiven).bind ?_
  rintro shipped shipped' ⟨hsame, hshipped⟩
  rw [hsame]
  cases shipped with
  | none => exact .done rfl
  | some shipped =>
    exact h.same_checkRequests hs hfits (hshipped shipped rfl) (fun _ => id) hstart []

omit hs hfits hshipped in
/-- The check of the root entries of two trees: both have one, and these resolve alike, or neither
has. -/
theorem agree_declarations {exports exports' : ConditionTree} {location location' : Location}
    (hroot : Option.Rel (SameRoot m) (root? exports location) (root? exports' location'))
    (hfits : ∀ root ∈ root? exports location, ∀ conditions found,
      root.resolve conditions = some found → h.Fits found.target)
    (hgiven : ∀ field ∈ EntryChecks.declarationFields,
      givenString ctx' field = givenString ctx field
        ∧ ∀ value, givenString ctx field = some value → h.Fits value) :
    (Declarations.plan ctx exports location).Agree (move m) tree tree'
      (Declarations.plan ctx' exports' location') := by
  rw [Declarations.plan, Declarations.plan]
  cases hfirst : root? exports location with
  | none =>
    rw [hfirst] at hroot
    cases hsecond : root? exports' location' with
    | none => exact Plan.agree_empty
    | some root' =>
      rw [hsecond] at hroot
      exact absurd hroot (by rintro ⟨⟩)
  | some root =>
    rw [hfirst] at hroot hfits
    cases hsecond : root? exports' location' with
    | none =>
      rw [hsecond] at hroot
      exact absurd hroot (by rintro ⟨⟩)
    | some root' =>
      rw [hsecond] at hroot
      obtain hs : SameRoot m root root' := by
        cases hroot with
        | some hs => exact hs
      exact Plan.agree_single (h.agree_rootEntry hs (hfits root rfl) hgiven) _ _

end Mirror

end PackageLint
