import PackageLint.Proofs.DistinctKeys

/-!
# The nodes of a condition tree

A walk over a tree comes by every node once, a node before those below it. What is found on the way
can then be said node by node, without the recursion that found it: a search below a node is a
search among its nodes, and a node is told from all others by its place.

That the list of nodes agrees with look-up by places needs distinct keys, since a key that is given
twice hides a subtree from look-up but not from the walk.

## Main definitions

* `ConditionTree.nodes` — the nodes of a tree with their places, in the order of a walk
* `ConditionTree.IsNodeAt` — the same by look-up

## Main results

* `ConditionTree.mem_nodes` — the two agree
* `ConditionTree.nodup_places` — no two nodes have one place
* `ConditionTree.hasKeyBelow_iff`, `ConditionTree.hasTarget_iff` — what a search finds
-/

namespace PackageLint.ConditionTree

mutual

/-- The nodes of a tree with their places, a node before those below it. -/
def nodes (location : Location) : ConditionTree → List (Location × ConditionTree)
  | .leaf target => [(location, .leaf target)]
  | .array items => (location, .array items) :: itemNodes location 0 items
  | .map entries => (location, .map entries) :: entryNodes location entries
  | .exclusion => [(location, .exclusion)]
  | .invalid value => [(location, .invalid value)]

/-- The nodes of the items of an array from an index on. -/
def itemNodes (location : Location) (index : Nat) :
    List ConditionTree → List (Location × ConditionTree)
  | [] => []
  | tree :: rest =>
    nodes (location ++ [toString index]) tree ++ itemNodes location (index + 1) rest

/-- The nodes of the entries of a map. -/
def entryNodes (location : Location) :
    List (String × ConditionTree) → List (Location × ConditionTree)
  | [] => []
  | (key, tree) :: rest => nodes (location ++ [key]) tree ++ entryNodes location rest

end

/-- A node of a tree that is at a location itself, looked up by its place. -/
def IsNodeAt (tree : ConditionTree) (location p : Location) (node : ConditionTree) : Prop :=
  ∃ place, p = location ++ place ∧ tree.at? place = some node

variable {location p : Location} {node : ConditionTree}

/-! ### Nodes by look-up -/

theorem itemsDistinct_iff {items : List ConditionTree} :
    ItemsDistinct items ↔ ∀ item ∈ items, item.DistinctKeys := by
  induction items with
  | nil => simp [ItemsDistinct]
  | cons item rest ih => simp [ItemsDistinct, ih]

/-- The nodes of a tree with distinct keys have distinct keys. -/
theorem DistinctKeys.at? {tree : ConditionTree} (h : tree.DistinctKeys) {place : Location}
    (hat : tree.at? place = some node) : node.DistinctKeys := by
  induction place generalizing tree with
  | nil =>
    obtain rfl : tree = node := by simpa using hat
    exact h
  | cons key rest ih =>
    cases tree with
    | map entries =>
      obtain ⟨inner, hget, hrest⟩ := Option.bind_eq_some_iff.mp hat
      exact ih (entriesDistinct_iff.mp h.2 _ (Assoc.mem_of_get? hget)) hrest
    | array items =>
      obtain ⟨inner, hget, hrest⟩ := Option.bind_eq_some_iff.mp hat
      obtain ⟨n, hn, -⟩ := Location.item?_eq_some hget
      exact ih (itemsDistinct_iff.mp h inner (List.mem_of_getElem? hn)) hrest
    | leaf target => exact absurd hat (by simp [ConditionTree.at?])
    | exclusion => exact absurd hat (by simp [ConditionTree.at?])
    | invalid value => exact absurd hat (by simp [ConditionTree.at?])

theorem isNodeAt_map {entries : List (String × ConditionTree)} (hk : (Assoc.keys entries).Nodup) :
    (ConditionTree.map entries).IsNodeAt location p node
      ↔ (p = location ∧ node = .map entries)
        ∨ ∃ key tree, (key, tree) ∈ entries ∧ tree.IsNodeAt (location ++ [key]) p node := by
  constructor
  · rintro ⟨place, hp, hat⟩
    cases place with
    | nil => exact Or.inl ⟨by simpa using hp, by simpa using hat.symm⟩
    | cons key rest =>
      obtain ⟨tree, hget, hrest⟩ := Option.bind_eq_some_iff.mp hat
      exact Or.inr ⟨key, tree, Assoc.mem_of_get? hget, rest, by simpa using hp, hrest⟩
  · rintro (⟨rfl, rfl⟩ | ⟨key, tree, hmem, rest, hp, hrest⟩)
    · exact ⟨[], (List.append_nil _).symm, at?_nil _⟩
    · refine ⟨key :: rest, by simpa using hp, ?_⟩
      rw [at?, Assoc.get?_of_mem hk hmem, Option.bind_some, hrest]

theorem isNodeAt_array {items : List ConditionTree} :
    (ConditionTree.array items).IsNodeAt location p node
      ↔ (p = location ∧ node = .array items)
        ∨ ∃ (n : Nat) (tree : ConditionTree), items[n]? = some tree
          ∧ tree.IsNodeAt (location ++ [toString (0 + n)]) p node := by
  constructor
  · rintro ⟨place, hp, hat⟩
    cases place with
    | nil => exact Or.inl ⟨by simpa using hp, by simpa using hat.symm⟩
    | cons key rest =>
      obtain ⟨tree, hget, hrest⟩ := Option.bind_eq_some_iff.mp hat
      obtain ⟨n, hn, rfl⟩ := Location.item?_eq_some hget
      exact Or.inr ⟨n, tree, hn, rest, by rw [hp, List.append_cons], hrest⟩
  · rintro (⟨rfl, rfl⟩ | ⟨n, tree, hn, rest, hp, hrest⟩)
    · exact ⟨[], (List.append_nil _).symm, at?_nil _⟩
    · refine ⟨toString (0 + n) :: rest, by rw [hp, ← List.append_cons], ?_⟩
      rw [at?, Location.item?_toString, hn, Option.bind_some, hrest]

/-- A tree without children is its only node. -/
theorem isNodeAt_single {tree : ConditionTree} (h : ∀ key rest, tree.at? (key :: rest) = none) :
    tree.IsNodeAt location p node ↔ p = location ∧ node = tree := by
  constructor
  · rintro ⟨place, hp, hat⟩
    cases place with
    | nil => exact ⟨by simpa using hp, by simpa using hat.symm⟩
    | cons key rest => simp [h] at hat
  · rintro ⟨rfl, rfl⟩
    exact ⟨[], (List.append_nil _).symm, at?_nil _⟩

/-- Nodes below different keys of one place have different places. -/
theorem IsNodeAt.ne_of_key_ne {key key' : String} {p' : Location} {tree tree' node' : ConditionTree}
    (h : tree.IsNodeAt (location ++ [key]) p node)
    (h' : tree'.IsNodeAt (location ++ [key']) p' node')
    (hne : key ≠ key') : p ≠ p' := by
  obtain ⟨place, rfl, -⟩ := h
  obtain ⟨place', rfl, -⟩ := h'
  intro heq
  simp only [List.append_assoc, List.append_cancel_left_eq] at heq
  exact hne (List.cons.inj heq).1

/-- A node below a key is not at the place above. -/
theorem IsNodeAt.ne_above {key : String} {tree : ConditionTree}
    (h : tree.IsNodeAt (location ++ [key]) p node) : location ≠ p := by
  obtain ⟨place, rfl, -⟩ := h
  simp

/-! ### The walk and look-up agree -/

mutual

/-- A walk comes by what look-up finds. -/
theorem mem_nodes : ∀ {tree : ConditionTree} (location : Location), tree.DistinctKeys →
    ((p, node) ∈ nodes location tree ↔ tree.IsNodeAt location p node)
  | .leaf _, location, _ => by
    rw [nodes, List.mem_singleton, Prod.mk.injEq, isNodeAt_single fun _ _ => rfl]
  | .array _, location, h => by
    rw [nodes, List.mem_cons, Prod.mk.injEq, mem_itemNodes location 0 h, isNodeAt_array]
  | .map _, location, h => by
    rw [nodes, List.mem_cons, Prod.mk.injEq, mem_entryNodes location h.2, isNodeAt_map h.1]
  | .exclusion, location, _ => by
    rw [nodes, List.mem_singleton, Prod.mk.injEq, isNodeAt_single fun _ _ => rfl]
  | .invalid _, location, _ => by
    rw [nodes, List.mem_singleton, Prod.mk.injEq, isNodeAt_single fun _ _ => rfl]

theorem mem_itemNodes : ∀ {items : List ConditionTree} (location : Location) (index : Nat),
    ItemsDistinct items →
    ((p, node) ∈ itemNodes location index items
      ↔ ∃ (n : Nat) (tree : ConditionTree), items[n]? = some tree
          ∧ tree.IsNodeAt (location ++ [toString (index + n)]) p node)
  | [], _, _, _ => by simp [itemNodes]
  | first :: rest, location, index, h => by
    rw [itemNodes, List.mem_append, mem_nodes _ h.1, mem_itemNodes location (index + 1) h.2]
    constructor
    · rintro (hfirst | ⟨n, tree, hn, hat⟩)
      · exact ⟨0, first, rfl, hfirst⟩
      · refine ⟨n + 1, tree, by simpa using hn, ?_⟩
        rwa [show index + (n + 1) = index + 1 + n by omega]
    · rintro ⟨n, tree, hn, hat⟩
      cases n with
      | zero =>
        obtain rfl : first = tree := by simpa using hn
        exact Or.inl hat
      | succ n =>
        refine Or.inr ⟨n, tree, by simpa using hn, ?_⟩
        rwa [show index + 1 + n = index + (n + 1) by omega]

theorem mem_entryNodes : ∀ {entries : List (String × ConditionTree)} (location : Location),
    EntriesDistinct entries →
    ((p, node) ∈ entryNodes location entries
      ↔ ∃ key tree, (key, tree) ∈ entries ∧ tree.IsNodeAt (location ++ [key]) p node)
  | [], _, _ => by simp [entryNodes]
  | (first, tree) :: rest, location, h => by
    rw [entryNodes, List.mem_append, mem_nodes _ h.1, mem_entryNodes location h.2]
    constructor
    · rintro (hfirst | ⟨key, other, hmem, hat⟩)
      · exact ⟨first, tree, List.mem_cons_self, hfirst⟩
      · exact ⟨key, other, List.mem_cons_of_mem _ hmem, hat⟩
    · rintro ⟨key, other, hmem, hat⟩
      rcases List.mem_cons.mp hmem with heq | hmem
      · obtain ⟨rfl, rfl⟩ := Prod.mk.inj heq
        exact Or.inl hat
      · exact Or.inr ⟨key, other, hmem, hat⟩

end

mutual

/-- No two nodes have one place. -/
theorem nodup_places : ∀ {tree : ConditionTree} (location : Location), tree.DistinctKeys →
    ((nodes location tree).map Prod.fst).Nodup
  | .leaf _, _, _ | .exclusion, _, _ | .invalid _, _, _ => by simp [nodes]
  | .array _, location, h => by
    rw [nodes, List.map_cons, List.nodup_cons]
    refine ⟨?_, nodup_itemPlaces location 0 h⟩
    intro hmem
    obtain ⟨⟨p, node⟩, hnode, heq⟩ := List.mem_map.mp hmem
    obtain ⟨n, tree, -, hat⟩ := (mem_itemNodes location 0 h).mp hnode
    exact hat.ne_above heq.symm
  | .map _, location, h => by
    rw [nodes, List.map_cons, List.nodup_cons]
    refine ⟨?_, nodup_entryPlaces location h.1 h.2⟩
    intro hmem
    obtain ⟨⟨p, node⟩, hnode, heq⟩ := List.mem_map.mp hmem
    obtain ⟨key, tree, -, hat⟩ := (mem_entryNodes location h.2).mp hnode
    exact hat.ne_above heq.symm

theorem nodup_itemPlaces : ∀ {items : List ConditionTree} (location : Location) (index : Nat),
    ItemsDistinct items → ((itemNodes location index items).map Prod.fst).Nodup
  | [], _, _, _ => List.nodup_nil
  | _ :: rest, location, index, h => by
    rw [itemNodes, List.map_append]
    refine List.Nodup.append (nodup_places _ h.1) (nodup_itemPlaces location (index + 1) h.2) ?_
    intro p hp hp'
    obtain ⟨⟨_, node⟩, hnode, rfl⟩ := List.mem_map.mp hp
    obtain ⟨⟨p', node'⟩, hnode', heq⟩ := List.mem_map.mp hp'
    obtain ⟨n, tree, -, hat⟩ := (mem_itemNodes location (index + 1) h.2).mp hnode'
    refine IsNodeAt.ne_of_key_ne ((mem_nodes _ h.1).mp hnode) hat ?_ heq.symm
    intro hkey
    have := Nat.repr_injective hkey
    omega

theorem nodup_entryPlaces : ∀ {entries : List (String × ConditionTree)} (location : Location),
    (Assoc.keys entries).Nodup → EntriesDistinct entries →
    ((entryNodes location entries).map Prod.fst).Nodup
  | [], _, _, _ => List.nodup_nil
  | (first, _) :: rest, location, hk, h => by
    rw [Assoc.keys, List.map_cons, List.nodup_cons] at hk
    rw [entryNodes, List.map_append]
    refine List.Nodup.append (nodup_places _ h.1) (nodup_entryPlaces location hk.2 h.2) ?_
    intro p hp hp'
    obtain ⟨⟨_, node⟩, hnode, rfl⟩ := List.mem_map.mp hp
    obtain ⟨⟨p', node'⟩, hnode', heq⟩ := List.mem_map.mp hp'
    obtain ⟨key, tree, hmem, hat⟩ := (mem_entryNodes location h.2).mp hnode'
    refine IsNodeAt.ne_of_key_ne ((mem_nodes _ h.1).mp hnode) hat ?_ heq.symm
    rintro rfl
    exact hk.1 (List.mem_map.mpr ⟨_, hmem, rfl⟩)

end

/-! ### Searches below a node -/

mutual

/-- A key is found where some node of the walk is a map that declares it. -/
theorem hasKeyBelow_nodes (key : String) : ∀ {tree : ConditionTree} (location : Location),
    tree.hasKeyBelow key = true
      ↔ ∃ p entries, (p, .map entries) ∈ nodes location tree ∧ key ∈ Assoc.keys entries
  | .leaf _, _ | .exclusion, _ | .invalid _, _ => by simp [nodes, hasKeyBelow]
  | .array items, location => by
    rw [hasKeyBelow, itemsHaveKey_nodes key location 0, nodes]
    simp
  | .map entries, location => by
    rw [hasKeyBelow, entriesHaveKey_nodes key location, nodes]
    simp only [List.mem_cons, Prod.mk.injEq, ConditionTree.map.injEq]
    constructor
    · rintro (hkey | ⟨p, found, hmem, hkey⟩)
      · exact ⟨location, entries, Or.inl ⟨rfl, rfl⟩, hkey⟩
      · exact ⟨p, found, Or.inr hmem, hkey⟩
    · rintro ⟨p, found, ⟨-, rfl⟩ | hmem, hkey⟩
      · exact Or.inl hkey
      · exact Or.inr ⟨p, found, hmem, hkey⟩

theorem itemsHaveKey_nodes (key : String) : ∀ {items : List ConditionTree} (location : Location)
    (index : Nat), itemsHaveKey key items = true
      ↔ ∃ p entries, (p, .map entries) ∈ itemNodes location index items ∧ key ∈ Assoc.keys entries
  | [], _, _ => by simp [itemsHaveKey, itemNodes]
  | tree :: rest, location, index => by
    rw [itemsHaveKey, Bool.or_eq_true, hasKeyBelow_nodes key (location ++ [toString index]),
      itemsHaveKey_nodes key location (index + 1), itemNodes]
    simp only [List.mem_append, or_and_right, exists_or]

theorem entriesHaveKey_nodes (key : String) : ∀ {entries : List (String × ConditionTree)}
    (location : Location), entriesHaveKey key entries = true
      ↔ key ∈ Assoc.keys entries
        ∨ ∃ p found, (p, .map found) ∈ entryNodes location entries ∧ key ∈ Assoc.keys found
  | [], _ => by simp [entriesHaveKey, entryNodes, Assoc.keys]
  | (first, tree) :: rest, location => by
    rw [entriesHaveKey, Bool.or_eq_true, Bool.or_eq_true, decide_eq_true_iff,
      hasKeyBelow_nodes key (location ++ [first]), entriesHaveKey_nodes key location, entryNodes]
    simp only [Assoc.keys, List.map_cons, List.mem_cons, List.mem_append, or_and_right, exists_or]
    rw [eq_comm, or_or_or_comm]

end

/-- A map below a tree, or the tree itself, declares a key. -/
theorem hasKeyBelow_iff {tree : ConditionTree} (h : tree.DistinctKeys) {key : String} :
    tree.hasKeyBelow key = true
      ↔ ∃ place entries, tree.at? place = some (.map entries) ∧ key ∈ Assoc.keys entries := by
  rw [hasKeyBelow_nodes key []]
  constructor
  · rintro ⟨p, entries, hmem, hkey⟩
    obtain ⟨place, -, hat⟩ := (mem_nodes [] h).mp hmem
    exact ⟨place, entries, hat, hkey⟩
  · rintro ⟨place, entries, hat, hkey⟩
    exact ⟨place, entries, (mem_nodes [] h).mpr ⟨place, rfl, hat⟩, hkey⟩

/-- Whether a leaf below a tree, or the tree itself, has a target of a kind. -/
def hasTarget (kind : String → Bool) : ConditionTree → Bool
  | .leaf target => kind target
  | .array items => itemsHaveTarget kind items
  | .map entries => entriesHaveTarget kind entries
  | .exclusion | .invalid _ => false

theorem itemsHaveTarget_cons (kind : String → Bool) (tree : ConditionTree)
    (rest : List ConditionTree) :
    itemsHaveTarget kind (tree :: rest) = (tree.hasTarget kind || itemsHaveTarget kind rest) := by
  cases tree <;> simp [itemsHaveTarget, hasTarget, hasTargetBelow]

theorem entriesHaveTarget_cons (kind : String → Bool) (key : String) (tree : ConditionTree)
    (rest : List (String × ConditionTree)) :
    entriesHaveTarget kind ((key, tree) :: rest)
      = (tree.hasTarget kind || entriesHaveTarget kind rest) := by
  cases tree <;> simp [entriesHaveTarget, hasTarget, hasTargetBelow]

mutual

/-- A target of a kind is found where some node of the walk is a leaf that has it. -/
theorem hasTarget_nodes (kind : String → Bool) : ∀ {tree : ConditionTree} (location : Location),
    tree.hasTarget kind = true
      ↔ ∃ p target, (p, .leaf target) ∈ nodes location tree ∧ kind target = true
  | .leaf _, _ => by simp [nodes, hasTarget]
  | .exclusion, _ | .invalid _, _ => by simp [nodes, hasTarget]
  | .array _, location => by
    rw [hasTarget, itemsHaveTarget_nodes kind location 0, nodes]
    simp
  | .map _, location => by
    rw [hasTarget, entriesHaveTarget_nodes kind location, nodes]
    simp

theorem itemsHaveTarget_nodes (kind : String → Bool) : ∀ {items : List ConditionTree}
    (location : Location) (index : Nat), itemsHaveTarget kind items = true
      ↔ ∃ p target, (p, .leaf target) ∈ itemNodes location index items ∧ kind target = true
  | [], _, _ => by simp [itemsHaveTarget, itemNodes]
  | _ :: _, location, index => by
    rw [itemsHaveTarget_cons, Bool.or_eq_true, hasTarget_nodes kind (location ++ [toString index]),
      itemsHaveTarget_nodes kind location (index + 1), itemNodes]
    simp only [List.mem_append, or_and_right, exists_or]

theorem entriesHaveTarget_nodes (kind : String → Bool) :
    ∀ {entries : List (String × ConditionTree)} (location : Location),
      entriesHaveTarget kind entries = true
        ↔ ∃ p target, (p, .leaf target) ∈ entryNodes location entries ∧ kind target = true
  | [], _ => by simp [entriesHaveTarget, entryNodes]
  | (key, _) :: _, location => by
    rw [entriesHaveTarget_cons, Bool.or_eq_true, hasTarget_nodes kind (location ++ [key]),
      entriesHaveTarget_nodes kind location, entryNodes]
    simp only [List.mem_append, or_and_right, exists_or]

end

/-- A leaf below a tree, or the tree itself, has a target of a kind. -/
theorem hasTarget_iff {tree : ConditionTree} (h : tree.DistinctKeys) {kind : String → Bool} :
    tree.hasTarget kind = true
      ↔ ∃ place target, tree.at? place = some (.leaf target) ∧ kind target = true := by
  rw [hasTarget_nodes kind []]
  constructor
  · rintro ⟨p, target, hmem, htarget⟩
    obtain ⟨place, -, hat⟩ := (mem_nodes [] h).mp hmem
    exact ⟨place, target, hat, htarget⟩
  · rintro ⟨place, target, hat, htarget⟩
    exact ⟨place, target, (mem_nodes [] h).mpr ⟨place, rfl, hat⟩, htarget⟩

end PackageLint.ConditionTree
