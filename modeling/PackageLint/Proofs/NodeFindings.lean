import PackageLint.Check.Crawl
import PackageLint.Proofs.TreeNodes

/-!
# What a crawl finds by itself

Apart from the keys of imports, which are a matter of the top level, what a crawl finds without
looking at files is about single nodes: an array is reported for being one, a value of another type
as well, and a map for the order of its keys. This file says which findings these are, node by node,
and that none is left out or repeated.

## The rule about `types`

Two searches take part in it. `types` may follow an entry that leads to typed sources anywhere, and
it may follow any entry as soon as one of the others has `types` of its own somewhere. Both searches
run through arrays and maps alike, but only a map has keys: an item of an array is never called
`types`. `typesTooLate_iff` states the rule without the searches.

## Main definitions

* `Crawl.TypesLate` — the rule about `types`, by look-up
* `Crawl.Verdict` — the findings that are due for the nodes of a tree

## Main results

* `Crawl.settled_visits` — a crawl reports what each node in turn gives rise to
* `Crawl.node_findings_exact` — these are the findings that are due, each of them once
-/

namespace PackageLint.Crawl

variable {field : EntryField} {location : Location} {d : Diagnostic}
  {entries : List (String × ConditionTree)}

/-! ### Findings that are due -/

/-- The finding that a key of a map is out of order. -/
def outOfOrder (code : Code) (location : Location) (key : String) : Diagnostic :=
  { code, severity := .error, location := location ++ [key] }

/-- A key is declared after another one. -/
def DeclaredLater (key other : String) (entries : List (String × ConditionTree)) : Prop :=
  ∃ front middle back, Assoc.keys entries = front ++ other :: middle ++ key :: back

/-- An entry is no versioned `types` condition and leads to no typed source. -/
structure IsUntyped (entry : String × ConditionTree) : Prop where
  key : Text.hasStart entry.1 "types" = false
  targets : ∀ place target, entry.2.at? place = some (.leaf target) →
    Source.isTypedSource target = false

/-- Some entries are untyped, and none of these has `types` of its own in a map below it. -/
def BarTypes (front : List (String × ConditionTree)) : Prop :=
  (∃ entry ∈ front, IsUntyped entry)
    ∧ ∀ entry ∈ front, IsUntyped entry → ∀ place inner,
        entry.2.at? place = some (.map inner) → "types" ∉ Assoc.keys inner

/-- `types` is declared after entries that bar it. -/
def TypesLate (entries : List (String × ConditionTree)) : Prop :=
  ∃ front types back, entries = front ++ ("types", types) :: back ∧ BarTypes front

/-- The findings that are due for the nodes of a tree at a location. -/
inductive Verdict (field : EntryField) (location : Location) (tree : ConditionTree) :
    Diagnostic → Prop
  | array {place items} (h : tree.at? place = some (.array items)) :
      Verdict field location tree (arrayUse field (location ++ place))
  | invalid {place value} (h : tree.at? place = some (.invalid value)) :
      Verdict field location tree (invalidNode value (location ++ place))
  | module {place entries} (h : tree.at? place = some (.map entries))
      (hlate : DeclaredLater "module" "require" entries) :
      Verdict field location tree
        (outOfOrder (.entry field .moduleShouldPrecedeRequire) (location ++ place) "module")
  | default {place entries} (h : tree.at? place = some (.map entries))
      (hmem : "default" ∈ Assoc.keys entries)
      (hlast : (Assoc.keys entries).getLast? ≠ some "default") :
      Verdict field location tree
        (outOfOrder (.entry field .defaultShouldBeLast) (location ++ place) "default")
  | types {place entries} (hfield : field = .exports) (h : tree.at? place = some (.map entries))
      (hlate : TypesLate entries) :
      Verdict field location tree
        (outOfOrder .exportsTypesShouldBeFirst (location ++ place) "types")

/-! ### The order of keys -/

theorem declaredAfter_iff {key other : String} (hk : (Assoc.keys entries).Nodup) :
    declaredAfter key other (Assoc.keys entries) = true ↔ DeclaredLater key other entries := by
  have htake : ∀ {front : List String} (back : List String), key ∉ front →
      (front ++ key :: back).takeWhile (· ≠ key) = front := by
    intro front back hfront
    rw [List.takeWhile_append_of_pos, List.takeWhile_cons_of_neg (by simp), List.append_nil]
    intro k hmem
    exact decide_eq_true (ne_of_mem_of_not_mem hmem hfront)
  rw [declaredAfter, Bool.and_eq_true, List.contains_iff_mem, List.contains_iff_mem]
  constructor
  · rintro ⟨hkey, hother⟩
    obtain ⟨front, back, hsplit, hfront⟩ := List.eq_append_cons_of_mem hkey
    rw [hsplit, htake back hfront] at hother
    obtain ⟨before, middle, rfl⟩ := List.append_of_mem hother
    exact ⟨before, middle, back, hsplit⟩
  · rintro ⟨front, middle, back, hsplit⟩
    rw [hsplit] at hk ⊢
    have hfront : key ∉ front ++ other :: middle := fun hmem =>
      List.disjoint_of_nodup_append hk hmem List.mem_cons_self
    rw [htake back hfront]
    exact ⟨by simp, by simp⟩

theorem mayPrecedeTypes_eq (entry : String × ConditionTree) :
    mayPrecedeTypes entry
      = (Text.hasStart entry.1 "types" || entry.2.hasTarget Source.isTypedSource) := by
  obtain ⟨key, tree⟩ := entry
  cases tree <;> rfl

theorem not_mayPrecedeTypes_iff {entry : String × ConditionTree} (h : entry.2.DistinctKeys) :
    (!mayPrecedeTypes entry) = true ↔ IsUntyped entry := by
  rw [mayPrecedeTypes_eq, Bool.not_or, Bool.and_eq_true, Bool.not_eq_true', Bool.not_eq_true',
    ← Bool.not_eq_true (entry.2.hasTarget _), ConditionTree.hasTarget_iff h]
  constructor
  · rintro ⟨hkey, htargets⟩
    refine ⟨hkey, fun place target hat => ?_⟩
    by_contra htyped
    exact htargets ⟨place, target, hat, by simpa using htyped⟩
  · rintro ⟨hkey, htargets⟩
    refine ⟨hkey, ?_⟩
    rintro ⟨place, target, hat, htyped⟩
    exact absurd (htargets place target hat) (by simp [htyped])

/-- The two searches come to the conditions on what is below the entries. -/
theorem barTypes_iff {front : List (String × ConditionTree)}
    (h : ConditionTree.EntriesDistinct front) :
    (!(front.filter fun e => !mayPrecedeTypes e).isEmpty
        && !(front.filter fun e => !mayPrecedeTypes e).any fun e => e.2.hasKeyBelow "types") = true
      ↔ BarTypes front := by
  have hdistinct := ConditionTree.entriesDistinct_iff.mp h
  rw [Bool.and_eq_true]
  refine and_congr ?_ ?_
  · rw [Bool.not_eq_true', List.isEmpty_eq_false_iff_exists_mem]
    refine exists_congr fun e => ?_
    rw [List.mem_filter]
    exact and_congr_right fun he => not_mayPrecedeTypes_iff (hdistinct e he)
  · rw [Bool.not_eq_true', List.any_eq_false]
    refine forall_congr' fun e => ?_
    rw [List.mem_filter, and_imp]
    refine forall_congr' fun he => imp_congr (not_mayPrecedeTypes_iff (hdistinct e he)) ?_
    rw [ConditionTree.hasKeyBelow_iff (hdistinct e he)]
    push Not
    rfl

/-- The rule about `types`, without the searches. -/
theorem typesTooLate_iff (h : (ConditionTree.map entries).DistinctKeys) :
    typesTooLate entries = true ↔ TypesLate entries := by
  -- keys are distinct, so `types` splits the entries in one way only
  have htake : ∀ {front types back}, entries = front ++ ("types", types) :: back →
      entries.takeWhile (fun e => e.1 ≠ "types") = front := by
    rintro front types back rfl
    rw [List.takeWhile_append_of_pos, List.takeWhile_cons_of_neg (by simp), List.append_nil]
    intro e he
    have hk := h.1
    rw [Assoc.keys, List.map_append] at hk
    refine decide_eq_true fun heq => List.disjoint_of_nodup_append hk (List.mem_map_of_mem he) ?_
    rw [heq]
    exact List.mem_cons_self
  have hfront : ∀ {front types back}, entries = front ++ ("types", types) :: back →
      (typesTooLate entries = true ↔ BarTypes front) := by
    intro front types back hsplit
    have hdistinct : ConditionTree.EntriesDistinct front :=
      ConditionTree.entriesDistinct_iff.mpr fun e he =>
        ConditionTree.entriesDistinct_iff.mp h.2 e (by rw [hsplit]; exact List.mem_append_left _ he)
    have hlength : front.length < entries.length := by simp [hsplit]
    rw [typesTooLate, htake hsplit, Bool.and_assoc, Bool.and_eq_true, barTypes_iff hdistinct,
      decide_eq_true_iff]
    exact and_iff_right hlength
  constructor
  · intro hlate
    obtain ⟨⟨_, types⟩, hmem, rfl⟩ : ∃ e ∈ entries, e.1 = "types" := by
      by_contra hnone
      push Not at hnone
      have hall : entries.takeWhile (fun e => e.1 ≠ "types") = entries :=
        List.takeWhile_eq_self_iff.mpr fun e he => decide_eq_true (hnone e he)
      rw [typesTooLate, hall] at hlate
      simp at hlate
    obtain ⟨front, back, hsplit⟩ := List.append_of_mem hmem
    exact ⟨front, types, back, hsplit, (hfront hsplit).mp hlate⟩
  · rintro ⟨front, types, back, hsplit, hbar⟩
    exact (hfront hsplit).mpr hbar

/-! ### Findings of single nodes -/

/-- What a node at a location gives rise to, apart from the keys of imports. -/
def nodeFindings (field : EntryField) (location : Location) : ConditionTree → List Diagnostic
  | .leaf _ | .exclusion => []
  | .array _ => [arrayUse field location]
  | .map entries => orderFindings field location entries
  | .invalid value => [invalidNode value location]

theorem mem_orderFindings (h : (ConditionTree.map entries).DistinctKeys) :
    d ∈ orderFindings field location entries
      ↔ (field = .exports ∧ TypesLate entries
            ∧ d = outOfOrder .exportsTypesShouldBeFirst location "types")
        ∨ (DeclaredLater "module" "require" entries
            ∧ d = outOfOrder (.entry field .moduleShouldPrecedeRequire) location "module")
        ∨ ("default" ∈ Assoc.keys entries ∧ (Assoc.keys entries).getLast? ≠ some "default")
            ∧ d = outOfOrder (.entry field .defaultShouldBeLast) location "default" := by
  have hmodule : declaredAfter "module" "require" (entries.map Prod.fst) = true
      ↔ DeclaredLater "module" "require" entries := declaredAfter_iff h.1
  simp only [orderFindings, List.mem_append, List.mem_ite_nil_right, List.mem_singleton,
    Bool.and_eq_true, decide_eq_true_iff, typesTooLate_iff h, hmodule, List.contains_iff_mem,
    bne_iff_ne, and_assoc, or_assoc]
  rfl

theorem nodup_orderFindings : (orderFindings field location entries).Nodup := by
  simp only [orderFindings]
  split <;> split <;> split <;> simp

/-- The place of the node that gives rise to a finding. -/
def nodePlace (field : EntryField) (d : Diagnostic) : Location :=
  if d.code = .entry field .fallbackArrayUse ∨ d.code = .fieldInvalidValueType then d.location
  else d.location.dropLast

/-- A finding tells the node that gives rise to it. -/
theorem nodePlace_of_mem {node : ConditionTree} (h : d ∈ nodeFindings field location node) :
    nodePlace field d = location := by
  cases node with
  | leaf target => simp [nodeFindings] at h
  | exclusion => simp [nodeFindings] at h
  | array items =>
    obtain rfl := List.mem_singleton.mp h
    simp [nodePlace, arrayUse]
  | invalid value =>
    obtain rfl := List.mem_singleton.mp h
    simp [nodePlace, invalidNode]
  | map entries =>
    simp only [nodeFindings, orderFindings, List.mem_append, List.mem_ite_nil_right,
      List.mem_singleton] at h
    rcases h with (⟨-, rfl⟩ | ⟨-, rfl⟩) | ⟨-, rfl⟩ <;> simp [nodePlace]

theorem nodup_nodeFindings (node : ConditionTree) : (nodeFindings field location node).Nodup := by
  cases node with
  | map entries => exact nodup_orderFindings
  | _ => simp [nodeFindings]

/-! ### The walk -/

/-- The findings among visits, apart from those about the keys of imports. -/
def settled (visits : List Visit) : List Diagnostic :=
  (visits.filterMap Visit.finding?).filter fun d => d.code ≠ .importsKeyInvalid

@[simp] theorem settled_nil : settled [] = [] := rfl

@[simp] theorem settled_append (a b : List Visit) : settled (a ++ b) = settled a ++ settled b := by
  simp [settled]

@[simp] theorem settled_target (t : Target) (rest : List Visit) :
    settled (.target t :: rest) = settled rest := rfl

theorem settled_finding (h : d.code ≠ .importsKeyInvalid) (rest : List Visit) :
    settled (.finding d :: rest) = d :: settled rest := by
  simp [settled, Visit.finding?, h]

theorem code_ne_of_mem_orderFindings (h : d ∈ orderFindings field location entries) :
    d.code ≠ .importsKeyInvalid := by
  simp only [orderFindings, List.mem_append, List.mem_ite_nil_right, List.mem_singleton] at h
  rcases h with (⟨-, rfl⟩ | ⟨-, rfl⟩) | ⟨-, rfl⟩ <;> simp

theorem settled_orderFindings :
    settled ((orderFindings field location entries).map .finding)
      = orderFindings field location entries := by
  rw [settled, filterMap_finding?, List.filter_eq_self]
  exact fun d hd => decide_eq_true (code_ne_of_mem_orderFindings hd)

theorem settled_keyFindings (key : String) :
    settled ((keyFindings field location key).map .finding) = [] := by
  rw [keyFindings]
  split <;> rfl

mutual

/-- A crawl reports what each node in turn gives rise to. -/
theorem settled_visits : ∀ (tree : ConditionTree) (location : Location) (afterNode : Bool),
    settled (visits field location afterNode tree)
      = (tree.nodes location).flatMap fun n => nodeFindings field n.1 n.2
  | .leaf _, _, _ => by simp [visits, ConditionTree.nodes, nodeFindings]
  | .array items, location, afterNode => by
    rw [visits, settled_finding (by simp [arrayUse]), settled_itemVisits, ConditionTree.nodes,
      List.flatMap_cons]
    rfl
  | .map entries, location, afterNode => by
    rw [visits, settled_append, settled_orderFindings, settled_entryVisits, ConditionTree.nodes,
      List.flatMap_cons]
    rfl
  | .exclusion, _, _ => by simp [visits, ConditionTree.nodes, nodeFindings]
  | .invalid value, location, _ => by
    rw [visits, settled_finding (by simp [invalidNode])]
    simp [ConditionTree.nodes, nodeFindings]

theorem settled_itemVisits : ∀ (items : List ConditionTree) (location : Location)
    (afterNode : Bool) (index : Nat),
    settled (itemVisits field location afterNode index items)
      = (ConditionTree.itemNodes location index items).flatMap fun n => nodeFindings field n.1 n.2
  | [], _, _, _ => rfl
  | tree :: rest, location, afterNode, index => by
    rw [itemVisits, settled_append, settled_visits tree, settled_itemVisits rest,
      ConditionTree.itemNodes, List.flatMap_append]

theorem settled_entryVisits : ∀ (entries : List (String × ConditionTree)) (location : Location)
    (afterNode : Bool),
    settled (entryVisits field location afterNode entries)
      = (ConditionTree.entryNodes location entries).flatMap fun n => nodeFindings field n.1 n.2
  | [], _, _ => rfl
  | (key, tree) :: rest, location, afterNode => by
    rw [entryVisits, settled_append, settled_append, settled_keyFindings, List.nil_append,
      settled_visits tree, settled_entryVisits rest, ConditionTree.entryNodes, List.flatMap_append]

end

/-- What is found at some node is what is due. -/
theorem verdict_iff {tree : ConditionTree} (h : tree.DistinctKeys) :
    Verdict field location tree d
      ↔ ∃ place node, tree.at? place = some node
          ∧ d ∈ nodeFindings field (location ++ place) node := by
  have hmap : ∀ {place entries}, tree.at? place = some (.map entries) →
      (ConditionTree.map entries).DistinctKeys := h.at?
  constructor
  · intro hverdict
    cases hverdict with
    | array hat => exact ⟨_, _, hat, List.mem_singleton_self _⟩
    | invalid hat => exact ⟨_, _, hat, List.mem_singleton_self _⟩
    | module hat hlate =>
      exact ⟨_, _, hat, (mem_orderFindings (hmap hat)).mpr (Or.inr (Or.inl ⟨hlate, rfl⟩))⟩
    | default hat hmem hlast =>
      exact ⟨_, _, hat, (mem_orderFindings (hmap hat)).mpr (Or.inr (Or.inr ⟨⟨hmem, hlast⟩, rfl⟩))⟩
    | types hfield hat hlate =>
      exact ⟨_, _, hat, (mem_orderFindings (hmap hat)).mpr (Or.inl ⟨hfield, hlate, rfl⟩)⟩
  · rintro ⟨place, node, hat, hd⟩
    cases node with
    | leaf target => simp [nodeFindings] at hd
    | exclusion => simp [nodeFindings] at hd
    | array items =>
      obtain rfl := List.mem_singleton.mp hd
      exact .array hat
    | invalid value =>
      obtain rfl := List.mem_singleton.mp hd
      exact .invalid hat
    | map entries =>
      rcases (mem_orderFindings (hmap hat)).mp hd with
        ⟨hfield, hlate, rfl⟩ | ⟨hlate, rfl⟩ | ⟨⟨hmem, hlast⟩, rfl⟩
      · exact .types hfield hat hlate
      · exact .module hat hlate
      · exact .default hat hmem hlast

/-- What a crawl finds by itself, apart from the keys of imports, is what is due for the nodes of
the tree, each finding once. -/
theorem node_findings_exact (field : EntryField) (location : Location) {tree : ConditionTree}
    (h : tree.DistinctKeys) :
    let found := (findings field location tree).filter fun d => d.code ≠ .importsKeyInvalid
    found.Nodup ∧ ∀ d, d ∈ found ↔ Verdict field location tree d := by
  have hfound : (findings field location tree).filter (fun d => d.code ≠ .importsKeyInvalid)
      = (tree.nodes location).flatMap fun n => nodeFindings field n.1 n.2 :=
    settled_visits tree location false
  rw [hfound]
  constructor
  · refine List.nodup_flatMap.mpr ⟨fun n _ => nodup_nodeFindings n.2, ?_⟩
    refine (List.pairwise_map.mp (ConditionTree.nodup_places location h)).imp ?_
    intro m n hne d hm hn
    exact hne ((nodePlace_of_mem hm).symm.trans (nodePlace_of_mem hn))
  · intro d
    rw [List.mem_flatMap, verdict_iff h]
    constructor
    · rintro ⟨⟨p, node⟩, hnode, hd⟩
      obtain ⟨place, rfl, hat⟩ := (ConditionTree.mem_nodes location h).mp hnode
      exact ⟨place, node, hat, hd⟩
    · rintro ⟨place, node, hat, hd⟩
      have hnode := (ConditionTree.mem_nodes location h).mpr ⟨place, rfl, hat⟩
      exact ⟨(location ++ place, node), hnode, hd⟩

/-- `types` after code is found in an array too, though the code leads to no types. -/
theorem barred_types_found :
    (ConditionTree.array
        [.map [("import", .leaf "./a.mjs"), ("types", .leaf "./a.d.ts")]]).DistinctKeys
      ∧ outOfOrder .exportsTypesShouldBeFirst ["exports", "0"] "types"
        ∈ findings .exports ["exports"]
          (.array [.map [("import", .leaf "./a.mjs"), ("types", .leaf "./a.d.ts")]]) := by
  let entries : List (String × ConditionTree) :=
    [("import", .leaf "./a.mjs"), ("types", .leaf "./a.d.ts")]
  have hdistinct : (ConditionTree.array [.map entries]).DistinctKeys := by
    simp [entries, ConditionTree.DistinctKeys, ConditionTree.ItemsDistinct,
      ConditionTree.EntriesDistinct, Assoc.keys]
  have huntyped : IsUntyped ("import", .leaf "./a.mjs") := by
    refine ⟨by decide, fun place target hat => ?_⟩
    cases place with
    | nil =>
      obtain rfl : "./a.mjs" = target := by simpa using hat
      decide
    | cons key rest => simp [ConditionTree.at?] at hat
  have hbar : BarTypes [("import", .leaf "./a.mjs")] := by
    refine ⟨⟨_, List.mem_singleton_self _, huntyped⟩, ?_⟩
    intro entry hentry _ place inner hat
    obtain rfl := List.mem_singleton.mp hentry
    cases place <;> simp [ConditionTree.at?] at hat
  have hdue : Verdict .exports ["exports"] (.array [.map entries])
      (outOfOrder .exportsTypesShouldBeFirst (["exports"] ++ ["0"]) "types") := by
    have hat : (ConditionTree.array [.map entries]).at? ["0"] = some (.map entries) := by
      rw [ConditionTree.at?, Location.item?, if_pos (by decide)]
      rfl
    have hlate : TypesLate entries := ⟨[_], _, [], rfl, hbar⟩
    exact .types rfl hat hlate
  obtain ⟨-, hexact⟩ := node_findings_exact .exports ["exports"] hdistinct
  exact ⟨hdistinct, List.mem_of_mem_filter ((hexact _).mpr hdue)⟩

end PackageLint.Crawl
