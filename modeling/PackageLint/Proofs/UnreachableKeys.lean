import PackageLint.Proofs.NodeFindings
import PackageLint.Proofs.Selections

/-!
# Keys that no conditions lead through

The crawl reports a map in which `default` is not the last key. It looks at the keys of one map alone,
and knows nothing of how a tree is resolved; the search for a target in turn knows nothing of findings.
This file says that the rule is the right one: a key that is declared after `default` is never gone
through, whatever the conditions are and however deep its map lies, and any other key of a leaf is,
under the condition of that name alone.

## Why a place tells the map

Both halves name a map by its place in a tree. A key that is given twice would make one place stand for
two entries, one before `default` and one after it, so keys are distinct throughout.

## Main results

* `ConditionTree.Selects.below` — what is selected below a place is selected by the node there
* `ConditionTree.exists_selects_iff` — the leaves of a map that some conditions select
* `Crawl.lateDefault_mem_findings_iff` — where the finding is due
* `Crawl.late_default_unreachable` — the finding is made just where a key is out of reach
-/

namespace PackageLint

open Crawl (DeclaredLater)

namespace ConditionTree

variable {conditions : List String} {place rest : Location} {key target : String}
  {tree node : ConditionTree} {entries : List (String × ConditionTree)}

/-! ### Descending -/

/-- What is selected below a place is selected by the node there. -/
theorem Selects.below (hd : tree.DistinctKeys) (hat : tree.at? place = some node)
    (h : tree.Selects conditions (place ++ rest) target) :
    node.Selects conditions rest target := by
  induction place generalizing tree with
  | nil =>
    obtain rfl : tree = node := by simpa using hat
    exact h
  | cons key place ih =>
    cases tree with
    | map entries =>
      obtain ⟨inner, hget, hinner⟩ := Option.bind_eq_some_iff.mp hat
      obtain ⟨front, _, tree, back, rfl, -, ⟨_, hplace, hselects⟩, -⟩ := selects_map.mp h
      obtain ⟨rfl, rfl⟩ := List.cons.inj hplace
      -- keys are distinct, so the entry that is selected is the one that look-up finds
      obtain rfl : tree = inner := by
        simpa [Assoc.get?_of_mem hd.1 (List.mem_append_right front List.mem_cons_self)] using hget
      exact ih (entriesDistinct_iff.mp hd.2 (key, tree) (by simp)) hinner hselects
    | array items =>
      obtain ⟨inner, hget, hinner⟩ := Option.bind_eq_some_iff.mp hat
      cases items with
      | nil => exact absurd h not_selects_nil
      | cons first items =>
        obtain ⟨_, hplace, hselects⟩ := selects_array.mp h
        obtain ⟨rfl, rfl⟩ := List.cons.inj hplace
        obtain rfl : first = inner := by
          simpa [Location.item?, show ("0" = toString 0) from by decide] using hget
        exact ih hd.1 hinner hselects
    | leaf value => simp [at?] at hat
    | exclusion => simp [at?] at hat
    | invalid value => simp [at?] at hat

/-! ### Keys after `default` -/

section

variable {front back : List (String × ConditionTree)}
  (hk : (Assoc.keys (front ++ (key, tree) :: back)).Nodup)

include hk

theorem key_not_mem_around : key ∉ Assoc.keys front ∧ key ∉ Assoc.keys back := by
  simp only [Assoc.keys, List.map_append, List.map_cons, List.nodup_middle, List.nodup_cons,
    List.mem_append, not_or] at hk
  exact hk.1

/-- An entry splits the keys of its map in one way only, so it is declared after what stands before
it there. -/
theorem declaredLater_split {other : String} :
    DeclaredLater key other (front ++ (key, tree) :: back) ↔ other ∈ Assoc.keys front := by
  obtain ⟨hfront, hback⟩ := key_not_mem_around hk
  have hkeys : Assoc.keys (front ++ (key, tree) :: back)
      = Assoc.keys front ++ key :: Assoc.keys back := by simp [Assoc.keys]
  rw [DeclaredLater, hkeys]
  constructor
  · rintro ⟨before, middle, after, hsplit⟩
    obtain ⟨hbefore, -, -⟩ := (List.append_cons_inj_of_notMem hfront hback).mp hsplit
    simp [hbefore]
  · intro hother
    obtain ⟨before, middle, hfront⟩ := List.append_of_mem hother
    exact ⟨before, middle, Assoc.keys back, by rw [hfront]⟩

end

/-- A map selects through no key that is declared after `default`. -/
theorem Selects.not_declaredLater (hk : (Assoc.keys entries).Nodup)
    (h : (map entries).Selects conditions (key :: rest) target) :
    ¬DeclaredLater key "default" entries := by
  obtain ⟨front, _, tree, back, rfl, -, ⟨_, hplace, -⟩, hfront⟩ := selects_map.mp h
  obtain ⟨rfl, rfl⟩ := List.cons.inj hplace
  rw [declaredLater_split hk]
  intro hdefault
  obtain ⟨earlier, hmem, hkey⟩ := List.mem_map.mp hdefault
  exact (hfront earlier hmem).1 hkey

/-- A key of a leaf is selected under some conditions unless it is declared after `default`. The
condition of its own name will do, for that is the name of no key before it. -/
theorem exists_selects_iff (hk : (Assoc.keys entries).Nodup) (hmem : (key, leaf target) ∈ entries) :
    (∃ conditions, (map entries).Selects conditions [key] target)
      ↔ ¬DeclaredLater key "default" entries := by
  constructor
  · rintro ⟨conditions, h⟩
    exact h.not_declaredLater hk
  · intro hlater
    obtain ⟨front, back, rfl⟩ := List.append_of_mem hmem
    have hkey : key ∉ Assoc.keys front := (key_not_mem_around hk).1
    rw [declaredLater_split hk] at hlater
    refine ⟨[key], selects_map.mpr ⟨front, key, leaf target, back, rfl, Or.inr (by simp),
      ⟨[], rfl, by simp⟩, fun earlier hearlier => ⟨?_, fun hactive => ?_⟩⟩⟩
    · intro hdefault
      exact hlater (hdefault ▸ List.mem_map_of_mem hearlier)
    · have hsame := List.mem_singleton.mp hactive
      exact absurd (hsame ▸ List.mem_map_of_mem hearlier) hkey

end ConditionTree

namespace Crawl

variable {field : EntryField} {location place : Location} {d : Diagnostic} {tree : ConditionTree}
  {entries : List (String × ConditionTree)}

/-- Some key is declared after another one just when that one is there and not the last. -/
theorem exists_declaredLater_iff {other : String} (hk : (Assoc.keys entries).Nodup) :
    (∃ key, DeclaredLater key other entries)
      ↔ other ∈ Assoc.keys entries ∧ (Assoc.keys entries).getLast? ≠ some other := by
  constructor
  · rintro ⟨key, front, middle, back, hsplit⟩
    rw [hsplit] at hk ⊢
    refine ⟨by simp, fun hlast => ?_⟩
    have hmem : other ∈ key :: back := by
      refine List.mem_of_getLast? ?_
      rwa [List.getLast?_append_of_ne_nil _ (by simp)] at hlast
    exact List.disjoint_of_nodup_append hk (by simp) hmem
  · rintro ⟨hmem, hlast⟩
    obtain ⟨front, back, hsplit⟩ := List.append_of_mem hmem
    cases back with
    | nil => simp [hsplit] at hlast
    | cons key back => exact ⟨key, front, [], back, by simp [hsplit]⟩

/-- What a crawl finds by itself, apart from the keys of imports, is what its nodes give rise to. -/
theorem mem_findings_iff (h : tree.DistinctKeys) (hcode : d.code ≠ .importsKeyInvalid) :
    d ∈ findings field location tree
      ↔ ∃ place node, tree.at? place = some node
          ∧ d ∈ nodeFindings field (location ++ place) node := by
  have hsettled : d ∈ findings field location tree
      ↔ d ∈ settled (visits field location false tree) := by
    simp [findings, settled, List.mem_filter, hcode]
  rw [hsettled, settled_visits, List.mem_flatMap]
  constructor
  · rintro ⟨⟨p, node⟩, hnode, hd⟩
    obtain ⟨place, rfl, hat⟩ := (ConditionTree.mem_nodes location h).mp hnode
    exact ⟨place, node, hat, hd⟩
  · rintro ⟨place, node, hat, hd⟩
    exact ⟨_, (ConditionTree.mem_nodes location h).mpr ⟨place, rfl, hat⟩, hd⟩

/-- The crawl reports `default` in a map just when it is there and not the last key. -/
theorem lateDefault_mem_findings_iff (h : tree.DistinctKeys)
    (hat : tree.at? place = some (.map entries)) :
    outOfOrder (.entry field .defaultShouldBeLast) (location ++ place) "default"
        ∈ findings field location tree
      ↔ "default" ∈ Assoc.keys entries ∧ (Assoc.keys entries).getLast? ≠ some "default" := by
  rw [mem_findings_iff h (by simp [outOfOrder])]
  constructor
  · rintro ⟨place', node, hat', hd⟩
    -- the place of a finding is that of its node with one more key, so the node is this map
    have hplace := nodePlace_of_mem hd
    obtain rfl : place = place' := by simpa [nodePlace, outOfOrder] using hplace
    obtain rfl := Option.some.inj (hat.symm.trans hat')
    rw [nodeFindings, mem_orderFindings (h.at? hat)] at hd
    rcases hd with ⟨-, -, heq⟩ | ⟨-, heq⟩ | ⟨hdue, -⟩
    · simp [outOfOrder] at heq
    · simp [outOfOrder] at heq
    · exact hdue
  · intro hdue
    exact ⟨place, _, hat, (mem_orderFindings (h.at? hat)).mpr (Or.inr (Or.inr ⟨hdue, rfl⟩))⟩

/-- The finding that `default` is not the last key of a map is made just where some key is declared
after it. Whatever the conditions are, no target of the whole tree is found through such a key; and in
a map without the finding every key of a leaf is selected under some conditions. -/
theorem late_default_unreachable (field : EntryField) (location : Location) (h : tree.DistinctKeys)
    (hat : tree.at? place = some (.map entries)) :
    let late := outOfOrder (.entry field .defaultShouldBeLast) (location ++ place) "default"
    (late ∈ findings field location tree ↔ ∃ key, DeclaredLater key "default" entries)
      ∧ (∀ conditions root found key rest, tree.resolve conditions root = some found →
          found.location = root ++ place ++ key :: rest → ¬DeclaredLater key "default" entries)
      ∧ (late ∉ findings field location tree → ∀ key target, (key, .leaf target) ∈ entries →
          ∃ conditions, ∀ root, (ConditionTree.map entries).resolve conditions root
            = some { target, location := root ++ [key] }) := by
  have hk : (Assoc.keys entries).Nodup := (h.at? hat).1
  intro late
  have hreported : late ∈ findings field location tree ↔ ∃ key, DeclaredLater key "default" entries :=
    (lateDefault_mem_findings_iff h hat).trans (exists_declaredLater_iff hk).symm
  refine ⟨hreported, ?_, ?_⟩
  · intro conditions root found key rest hfound hlocation
    obtain ⟨way, hway, hselects⟩ := ConditionTree.resolve_eq_some_iff.mp hfound
    obtain rfl : way = place ++ key :: rest := by
      rwa [hway, List.append_assoc, List.append_cancel_left_eq] at hlocation
    exact (hselects.below h hat).not_declaredLater hk
  · intro hlate key target hmem
    have hlater : ¬DeclaredLater key "default" entries := fun hlater =>
      hlate (hreported.mpr ⟨key, hlater⟩)
    obtain ⟨conditions, hselects⟩ := (ConditionTree.exists_selects_iff hk hmem).mpr hlater
    exact ⟨conditions, fun root => ConditionTree.resolve_eq_some_iff.mpr ⟨[key], rfl, hselects⟩⟩

/-- `default` cuts off a key in a map below an array, though its own branch may yield nothing. -/
theorem cut_off_key_reported :
    let entries : List (String × ConditionTree) :=
      [("import", .leaf "./i.mjs"), ("default", .map [("node", .leaf "./n.js")]),
        ("require", .leaf "./r.cjs")]
    let tree : ConditionTree := .map [(".", .array [.map entries])]
    tree.DistinctKeys ∧ tree.at? [".", "0"] = some (.map entries)
      ∧ outOfOrder (.entry .exports .defaultShouldBeLast) ["exports", ".", "0"] "default"
        ∈ findings .exports ["exports"] tree
      ∧ ∀ conditions root found rest, tree.resolve conditions root = some found →
          found.location ≠ root ++ [".", "0"] ++ "require" :: rest := by
  intro entries tree
  have hd : tree.DistinctKeys := by
    simp [tree, entries, ConditionTree.DistinctKeys, ConditionTree.ItemsDistinct,
      ConditionTree.EntriesDistinct, Assoc.keys]
  have hat : tree.at? [".", "0"] = some (.map entries) := by
    simp [tree, ConditionTree.at?, Assoc.get?, Location.item?, show toString 0 = "0" by decide]
  have hlater : DeclaredLater "require" "default" entries := ⟨["import"], [], [], rfl⟩
  obtain ⟨hreported, hunreachable, -⟩ := late_default_unreachable .exports ["exports"] hd hat
  exact ⟨hd, hat, hreported.mpr ⟨_, hlater⟩, fun conditions root found rest hfound hlocation =>
    hunreachable conditions root found _ _ hfound hlocation hlater⟩

end Crawl

end PackageLint
