import PackageLint.ConditionTree.Resolve
import PackageLint.Proofs.Places

/-!
# What a condition tree selects

Resolving a tree is a search: keys are tried in order, a branch that yields nothing is left again, and
`default` cuts the search short. This file says what is found without searching: a map selects what its
first entry selects that holds and selects anything.

## Why the relation is no inductive predicate

An entry is only selected when those before it that hold select nothing, so selection occurs
negatively in its own definition. It is therefore defined by recursion on the tree, with a clause for
each kind of node.

Whether a tree selects anything at all can be said without the negation. The way to a target is open
when each of its keys holds and no `default` is declared before it in its map, whatever comes of the
other branches. Openness is a predicate of the usual kind, and it can only grow with the conditions.

## Main definitions

* `ConditionTree.Selects` — a tree selects a target at a place
* `ConditionTree.IsOpen` — the way to a target is open

## Main results

* `ConditionTree.resolve_eq_some_iff` — a search finds what is selected
* `ConditionTree.selects_congr` — only the set of conditions matters, and `default` not at all
* `ConditionTree.selectsSome_iff_isOpen` — something is selected just when some way is open
* `ConditionTree.first_match_exact`, `ConditionTree.resolved_of_subset` — the same for searches
-/

namespace PackageLint.ConditionTree

variable {conditions conditions' : List String} {location place : Location} {key target : String}
  {tree : ConditionTree} {entries rest : List (String × ConditionTree)}

/-! ### Selection -/

theorem sizeOf_lt_map {entry : String × ConditionTree} (h : entry ∈ entries) :
    sizeOf entry.2 < sizeOf (ConditionTree.map entries) := by
  have hmem := List.sizeOf_lt_of_mem h
  obtain ⟨key, tree⟩ := entry
  simp only [Prod.mk.sizeOf_spec, ConditionTree.map.sizeOf_spec] at hmem ⊢
  omega

/-- A tree selects a target at a place: a leaf its own, an array what its first item selects, and a map
what an entry selects that holds. No entry before that one may be `default`, and those that hold must
not select anything. -/
def Selects (conditions : List String) : ConditionTree → Location → String → Prop
  | .leaf value, place, target => place = [] ∧ target = value
  | .array [], _, _ => False
  | .array (first :: _), place, target =>
    ∃ below, place = "0" :: below ∧ Selects conditions first below target
  | .map entries, place, target =>
    ∃ front key tree back, ∃ _split : entries = front ++ (key, tree) :: back,
      (key = "default" ∨ key ∈ conditions)
        ∧ (∃ below, place = key :: below ∧ Selects conditions tree below target)
        ∧ ∀ earlier, ∀ _before : earlier ∈ front, earlier.1 ≠ "default"
            ∧ (earlier.1 ∈ conditions → ¬∃ place target, Selects conditions earlier.2 place target)
  | .exclusion, _, _ => False
  | .invalid _, _, _ => False
termination_by tree => tree
decreasing_by
  · simp only [ConditionTree.array.sizeOf_spec, List.cons.sizeOf_spec]
    omega
  · have hmem : (key, tree) ∈ entries := by simp [_split]
    exact sizeOf_lt_map hmem
  · exact sizeOf_lt_map (by simp [_split, _before])

/-- A tree selects anything at all. -/
def SelectsSome (conditions : List String) (tree : ConditionTree) : Prop :=
  ∃ place target, tree.Selects conditions place target

@[simp] theorem selects_leaf {value : String} :
    (leaf value).Selects conditions place target ↔ place = [] ∧ target = value := by
  rw [Selects]

@[simp] theorem not_selects_nil : ¬(array []).Selects conditions place target := by
  rw [Selects]
  exact not_false

theorem selects_array {first : ConditionTree} {items : List ConditionTree} :
    (array (first :: items)).Selects conditions place target
      ↔ ∃ below, place = "0" :: below ∧ first.Selects conditions below target := by
  rw [Selects]

@[simp] theorem not_selects_exclusion : ¬exclusion.Selects conditions place target := by
  rw [Selects]
  exact not_false

@[simp] theorem not_selects_invalid {value : Json} :
    ¬(invalid value).Selects conditions place target := by
  rw [Selects]
  exact not_false

theorem selects_map :
    (map entries).Selects conditions place target
      ↔ ∃ front key tree back, entries = front ++ (key, tree) :: back
          ∧ (key = "default" ∨ key ∈ conditions)
          ∧ (∃ below, place = key :: below ∧ tree.Selects conditions below target)
          ∧ ∀ earlier ∈ front, earlier.1 ≠ "default"
              ∧ (earlier.1 ∈ conditions → ¬earlier.2.SelectsSome conditions) := by
  rw [Selects]
  simp only [exists_prop, SelectsSome]

theorem not_selects_empty : ¬(map []).Selects conditions place target := by
  rw [selects_map]
  rintro ⟨front, key, tree, back, hsplit, -⟩
  simp at hsplit

/-- The first entry of a map is selected, or it is passed over. -/
theorem selects_cons :
    (map ((key, tree) :: rest)).Selects conditions place target
      ↔ (key = "default" ∨ key ∈ conditions)
            ∧ (∃ below, place = key :: below ∧ tree.Selects conditions below target)
        ∨ key ≠ "default" ∧ (key ∈ conditions → ¬tree.SelectsSome conditions)
            ∧ (map rest).Selects conditions place target := by
  rw [selects_map, selects_map]
  constructor
  · rintro ⟨front, key', tree', back, hsplit, hholds, hselects, hfront⟩
    cases front with
    | nil =>
      obtain ⟨⟨rfl, rfl⟩, rfl⟩ := by simpa using hsplit
      exact Or.inl ⟨hholds, hselects⟩
    | cons first front =>
      obtain ⟨rfl, rfl⟩ := List.cons.inj hsplit
      obtain ⟨hfirst, hfront⟩ := List.forall_mem_cons.mp hfront
      exact Or.inr ⟨hfirst.1, hfirst.2, front, key', tree', back, rfl, hholds, hselects, hfront⟩
  · rintro (⟨hholds, hselects⟩ | ⟨hne, hnone, front, key', tree', back, rfl, hholds, hselects, hfront⟩)
    · exact ⟨[], key, tree, rest, rfl, hholds, hselects, by simp⟩
    · exact ⟨(key, tree) :: front, key', tree', back, rfl, hholds, hselects,
        List.forall_mem_cons.mpr ⟨⟨hne, hnone⟩, hfront⟩⟩

/-! ### Searches -/

variable {found : Resolved}

/-- One step of the search among entries: an entry that holds ends it with what it yields, when it
yields anything or is `default`, and any other entry is passed over. -/
theorem resolveEntries_cons_eq_some :
    resolveEntries conditions location ((key, tree) :: rest) = some found
      ↔ (key = "default" ∨ key ∈ conditions)
            ∧ resolve conditions (location ++ [key]) tree = some found
        ∨ key ≠ "default" ∧ (key ∈ conditions → resolve conditions (location ++ [key]) tree = none)
            ∧ resolveEntries conditions location rest = some found := by
  rw [resolveEntries]
  split
  next hdefault => simp [hdefault]
  next hdefault =>
    simp only [hdefault, false_or, ne_eq, not_false_iff, true_and]
    split
    next hactive =>
      rw [List.contains_iff_mem] at hactive
      cases resolve conditions (location ++ [key]) tree <;> simp [hactive]
    next hactive =>
      rw [List.contains_iff_mem] at hactive
      simp [hactive]

/-- Where a search finds just what is selected, it finds nothing just when nothing is. -/
theorem eq_none_iff_of {result : Option Resolved}
    (h : ∀ found, result = some found
      ↔ ∃ place, found.location = location ++ place ∧ tree.Selects conditions place found.target) :
    result = none ↔ ¬tree.SelectsSome conditions := by
  rw [Option.eq_none_iff_forall_ne_some]
  constructor
  · rintro hnone ⟨place, target, hselects⟩
    exact hnone ⟨target, location ++ place⟩ ((h _).mpr ⟨place, rfl, hselects⟩)
  · intro hnothing found hfound
    obtain ⟨place, -, hselects⟩ := (h found).mp hfound
    exact hnothing ⟨place, found.target, hselects⟩

/-- A target is found below a key just when it is selected there. -/
theorem found_below :
    (∃ place, found.location = location ++ place
        ∧ ∃ below, place = key :: below ∧ tree.Selects conditions below found.target)
      ↔ ∃ below, found.location = location ++ [key] ++ below
          ∧ tree.Selects conditions below found.target := by
  constructor
  · rintro ⟨_, hlocation, below, rfl, hselects⟩
    exact ⟨below, by rw [hlocation, List.append_cons], hselects⟩
  · rintro ⟨below, hlocation, hselects⟩
    exact ⟨key :: below, by rw [hlocation, ← List.append_cons], below, rfl, hselects⟩

mutual

/-- A search finds what is selected, at the place of the tree with the place of the target in it. -/
theorem resolve_eq_some_iff : ∀ {tree : ConditionTree} {location : Location} {found : Resolved},
    resolve conditions location tree = some found
      ↔ ∃ place, found.location = location ++ place ∧ tree.Selects conditions place found.target
  | .leaf value, location, found => by
    obtain ⟨target, p⟩ := found
    simp only [resolve, Option.some.injEq, Resolved.mk.injEq, selects_leaf]
    constructor
    · rintro ⟨rfl, rfl⟩
      exact ⟨[], (List.append_nil _).symm, rfl, rfl⟩
    · rintro ⟨place, rfl, rfl, rfl⟩
      exact ⟨rfl, (List.append_nil _).symm⟩
  | .array [], _, _ => by simp [resolve]
  | .array (first :: items), location, found => by
    have hfirst : resolve conditions (location ++ ["0"]) first = some found ↔ _ :=
      resolve_eq_some_iff
    simp only [resolve, hfirst, selects_array]
    exact found_below.symm
  | .map entries, location, found => by
    rw [resolve, resolveEntries_eq_some_iff]
  | .exclusion, _, _ => by simp [resolve]
  | .invalid _, _, _ => by simp [resolve]

theorem resolveEntries_eq_some_iff : ∀ {entries : List (String × ConditionTree)}
    {location : Location} {found : Resolved},
    resolveEntries conditions location entries = some found
      ↔ ∃ place, found.location = location ++ place
          ∧ (map entries).Selects conditions place found.target
  | [], _, _ => by simp [resolveEntries, not_selects_empty]
  | (key, tree) :: rest, location, found => by
    have htree {found : Resolved} : resolve conditions (location ++ [key]) tree = some found ↔ _ :=
      resolve_eq_some_iff
    have hrest : resolveEntries conditions location rest = some found ↔ _ :=
      resolveEntries_eq_some_iff
    rw [resolveEntries_cons_eq_some, hrest, htree, eq_none_iff_of fun _ => htree, ← found_below]
    constructor
    · rintro (⟨hholds, place, hlocation, hbelow⟩ | ⟨hne, hnone, place, hlocation, hrest⟩)
      · exact ⟨place, hlocation, selects_cons.mpr (Or.inl ⟨hholds, hbelow⟩)⟩
      · exact ⟨place, hlocation, selects_cons.mpr (Or.inr ⟨hne, hnone, hrest⟩)⟩
    · rintro ⟨place, hlocation, hselects⟩
      rcases selects_cons.mp hselects with ⟨hholds, hbelow⟩ | ⟨hne, hnone, hrest⟩
      · exact Or.inl ⟨hholds, place, hlocation, hbelow⟩
      · exact Or.inr ⟨hne, hnone, place, hlocation, hrest⟩

end

theorem resolve_eq_none_iff :
    resolve conditions location tree = none ↔ ¬tree.SelectsSome conditions :=
  eq_none_iff_of fun _ => resolve_eq_some_iff

/-! ### Conditions as a set -/

mutual

/-- The order of conditions, their repetition, and whether `default` is among them have no part in
what is selected. -/
theorem selects_congr (h : ∀ key, key ≠ "default" → (key ∈ conditions ↔ key ∈ conditions')) :
    ∀ {tree : ConditionTree} {place : Location} {target : String},
      tree.Selects conditions place target ↔ tree.Selects conditions' place target
  | .leaf _, _, _ => by rw [selects_leaf, selects_leaf]
  | .array [], _, _ => iff_of_false not_selects_nil not_selects_nil
  | .array (first :: items), place, target => by
    have hfirst {place : Location} {target : String} : first.Selects conditions place target ↔ _ :=
      selects_congr h
    simp only [selects_array, hfirst]
  | .map _, _, _ => selects_map_congr h
  | .exclusion, _, _ => iff_of_false not_selects_exclusion not_selects_exclusion
  | .invalid _, _, _ => iff_of_false not_selects_invalid not_selects_invalid

theorem selects_map_congr (h : ∀ key, key ≠ "default" → (key ∈ conditions ↔ key ∈ conditions')) :
    ∀ {entries : List (String × ConditionTree)} {place : Location} {target : String},
      (map entries).Selects conditions place target ↔ (map entries).Selects conditions' place target
  | [], _, _ => iff_of_false not_selects_empty not_selects_empty
  | (key, tree) :: rest, place, target => by
    have hholds : key = "default" ∨ key ∈ conditions ↔ key = "default" ∨ key ∈ conditions' := by
      by_cases hdefault : key = "default"
      · simp [hdefault]
      · rw [h key hdefault]
    have htree {place : Location} {target : String} : tree.Selects conditions place target ↔ _ :=
      selects_congr h
    have hrest : (map rest).Selects conditions place target ↔ _ := selects_map_congr h
    simp only [selects_cons, hholds, SelectsSome, htree, hrest]
    refine or_congr Iff.rfl (and_congr_right fun hdefault => ?_)
    rw [h key hdefault]

end

/-- The search for a target is the declarative first match: it finds what the tree selects, at the
place of the tree with the place of the target in it, and nothing where nothing is selected. So it
depends on the conditions as a set, and not on whether `default` is one of them. -/
theorem first_match_exact (conditions : List String) (tree : ConditionTree) :
    (∀ location place target,
        resolve conditions location tree = some { target, location := location ++ place }
          ↔ tree.Selects conditions place target)
      ∧ (∀ location, resolve conditions location tree = none
          ↔ ¬∃ place target, tree.Selects conditions place target)
      ∧ ∀ conditions', (∀ key, key ≠ "default" → (key ∈ conditions ↔ key ∈ conditions')) →
          ∀ location, resolve conditions location tree = resolve conditions' location tree := by
  refine ⟨fun location place target => ?_, fun location => resolve_eq_none_iff,
    fun conditions' h location => ?_⟩
  · rw [resolve_eq_some_iff]
    constructor
    · rintro ⟨place', hplace, hselects⟩
      rwa [List.append_cancel_left hplace]
    · exact fun hselects => ⟨place, rfl, hselects⟩
  · refine Option.ext fun found => ?_
    rw [resolve_eq_some_iff, resolve_eq_some_iff]
    simp only [selects_congr h]

/-- A leaf that is selected under one condition, past a branch that holds and yields nothing. -/
theorem failed_branch_left :
    (∀ key, key ≠ "default" → (key ∈ ["import", "node"] ↔ key ∈ ["node", "default", "import", "node"]))
      ∧ (let tree : ConditionTree :=
          .map [("node", .map [("deno", .leaf "./d.js")]), ("import", .array [.leaf "./i.js"])]
        tree.Selects ["import", "node"] ["import", "0"] "./i.js"
          ∧ resolve ["node", "default", "import", "node"] ["exports"] tree
            = some { target := "./i.js", location := ["exports", "import", "0"] }) := by
  have hconditions : ∀ key, key ≠ "default" →
      (key ∈ ["import", "node"] ↔ key ∈ ["node", "default", "import", "node"]) := by
    intro key hkey
    simp only [List.mem_cons, List.not_mem_nil, or_false, hkey, false_or]
    tauto
  refine ⟨hconditions, ?_⟩
  intro tree
  obtain ⟨hfound, -, hset⟩ := first_match_exact ["import", "node"] tree
  refine ⟨(hfound ["exports"] _ _).mp (by decide), ?_⟩
  rw [← hset _ hconditions]
  decide

/-! ### Growing sets of conditions -/

/-- The way to a target is open: it follows arrays by their first items and maps by keys that hold,
before which no `default` is declared. What the entries before those keys select does not matter. -/
inductive IsOpen (conditions : List String) : ConditionTree → Location → String → Prop
  | leaf (value : String) : IsOpen conditions (leaf value) [] value
  | first {first items place target} (h : IsOpen conditions first place target) :
      IsOpen conditions (array (first :: items)) ("0" :: place) target
  | entry {front key tree back place target} (hholds : key = "default" ∨ key ∈ conditions)
      (hfront : ∀ earlier ∈ front, earlier.1 ≠ "default") (h : IsOpen conditions tree place target) :
      IsOpen conditions (map (front ++ (key, tree) :: back)) (key :: place) target

/-- The way to what is selected is open. The recursion is on the place, which gets shorter below a map
and below an array. -/
theorem Selects.isOpen {tree : ConditionTree} {place : Location}
    (h : tree.Selects conditions place target) : tree.IsOpen conditions place target := by
  cases tree with
  | leaf value =>
    obtain ⟨rfl, rfl⟩ := selects_leaf.mp h
    exact .leaf target
  | array items =>
    cases items with
    | nil => exact absurd h not_selects_nil
    | cons first items =>
      obtain ⟨below, rfl, hselects⟩ := selects_array.mp h
      exact .first hselects.isOpen
  | map entries =>
    obtain ⟨front, key, tree, back, rfl, hholds, ⟨below, rfl, hselects⟩, hfront⟩ := selects_map.mp h
    exact .entry hholds (fun earlier hmem => (hfront earlier hmem).1) hselects.isOpen
  | exclusion => exact absurd h not_selects_exclusion
  | invalid value => exact absurd h not_selects_invalid
termination_by place

/-- The way to what is resolved is open. -/
theorem isOpen_of_resolve (h : resolve conditions location tree = some found) :
    ∃ place, found.location = location ++ place ∧ tree.IsOpen conditions place found.target := by
  obtain ⟨place, hplace, hselects⟩ := resolve_eq_some_iff.mp h
  exact ⟨place, hplace, hselects.isOpen⟩

/-- A map selects something when an entry does that holds and comes after no `default`. What is
selected may come from an entry before it. -/
theorem selectsSome_map {front back : List (String × ConditionTree)}
    (hholds : key = "default" ∨ key ∈ conditions)
    (hfront : ∀ earlier ∈ front, earlier.1 ≠ "default") (h : tree.SelectsSome conditions) :
    (map (front ++ (key, tree) :: back)).SelectsSome conditions := by
  induction front with
  | nil =>
    obtain ⟨place, target, hselects⟩ := h
    exact ⟨key :: place, target, selects_cons.mpr (Or.inl ⟨hholds, place, rfl, hselects⟩)⟩
  | cons earlier front ih =>
    obtain ⟨hne, hfront⟩ := List.forall_mem_cons.mp hfront
    by_cases hdiverted : earlier.1 ∈ conditions ∧ earlier.2.SelectsSome conditions
    · obtain ⟨hactive, place, target, hselects⟩ := hdiverted
      exact ⟨earlier.1 :: place, target,
        selects_cons.mpr (Or.inl ⟨Or.inr hactive, place, rfl, hselects⟩)⟩
    · obtain ⟨place, target, hselects⟩ := ih hfront
      exact ⟨place, target, selects_cons.mpr (Or.inr ⟨hne, not_and.mp hdiverted, hselects⟩)⟩

/-- A tree selects something when a way is open in it, be it at another place. -/
theorem IsOpen.selectsSome (h : tree.IsOpen conditions place target) :
    tree.SelectsSome conditions := by
  induction h with
  | leaf value => exact ⟨[], value, selects_leaf.mpr ⟨rfl, rfl⟩⟩
  | first _ ih =>
    obtain ⟨place, target, hselects⟩ := ih
    exact ⟨"0" :: place, target, selects_array.mpr ⟨place, rfl, hselects⟩⟩
  | entry hholds hfront _ ih => exact selectsSome_map hholds hfront ih

theorem selectsSome_iff_isOpen :
    tree.SelectsSome conditions ↔ ∃ place target, tree.IsOpen conditions place target :=
  ⟨fun ⟨place, target, h⟩ => ⟨place, target, h.isOpen⟩, fun ⟨_, _, h⟩ => h.selectsSome⟩

/-- More conditions close no way. -/
theorem IsOpen.mono (hsub : conditions ⊆ conditions') (h : tree.IsOpen conditions place target) :
    tree.IsOpen conditions' place target := by
  induction h with
  | leaf value => exact .leaf value
  | first _ ih => exact .first ih
  | entry hholds hfront _ ih => exact .entry (hholds.imp_right fun hkey => hsub hkey) hfront ih

/-- What is resolved stays resolved when conditions are added, though perhaps to another target: a
search that is led into another branch either finds something there or comes back. -/
theorem resolved_of_subset (hsub : conditions ⊆ conditions') (tree : ConditionTree)
    (location : Location) (h : resolve conditions location tree ≠ none) :
    resolve conditions' location tree ≠ none := by
  rw [Ne, resolve_eq_none_iff, not_not, selectsSome_iff_isOpen] at h ⊢
  obtain ⟨place, target, hopen⟩ := h
  exact ⟨place, target, hopen.mono hsub⟩

/-- The added condition leads into a branch that its own `default` cuts short. -/
theorem resolved_past_branch :
    let tree : ConditionTree :=
      .map [("node", .map [("default", .map [("deno", .leaf "./d.js")]), ("import", .leaf "./n.js")]),
        ("import", .leaf "./i.js")]
    ["import"] ⊆ ["import", "node"]
      ∧ resolve ["import"] ["exports"] tree ≠ none
      ∧ resolve ["import", "node"] ["exports"] tree ≠ none := by
  intro tree
  have hsub : ["import"] ⊆ ["import", "node"] := by decide
  have hfound : resolve ["import"] ["exports"] tree ≠ none := by decide
  exact ⟨hsub, hfound, resolved_of_subset hsub tree ["exports"] hfound⟩

end PackageLint.ConditionTree
