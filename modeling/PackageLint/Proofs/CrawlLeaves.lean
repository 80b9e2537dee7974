import PackageLint.Check.Crawl
import PackageLint.Proofs.DistinctKeys

/-!
# The leaves that a crawl visits

A crawl threads a flag through maps and arrays: once a `node` key has been passed, everything that
follows it in its map comes after `node`, however deep. The flag a leaf ends up with is determined by
the leaf's place alone, and this file says how.

## The flag as a condition on places

`ConditionTree.BehindNode tree place` says that some map on the way declares `node` before the key
with which the place goes on. The crawl knows nothing of places when it sets the flag: it looks at
the keys of one map at a time, and a map passes the flag on to all its entries. That both agree is
the content of `Crawl.mem_targets`, an induction over the tree with the flag that comes from above as
a parameter.

## Main definitions

* `ConditionTree.BehindNode` — some map on the way to a place declares `node` before the way on

## Main results

* `Crawl.mem_targets` — the leaves a crawl visits are those of the tree, each at its place
* `Crawl.nodup_targets` — no two of them have one place
-/

namespace PackageLint

namespace ConditionTree

/-- Some map on the way to a place declares `node` before the key with which the place goes on. -/
def BehindNode (tree : ConditionTree) (place : Location) : Prop :=
  ∃ above key below entries, place = above ++ key :: below
    ∧ tree.at? above = some (.map entries)
    ∧ "node" ∈ (Assoc.keys entries).takeWhile (· ≠ key)

@[simp] theorem not_behindNode_nil (tree : ConditionTree) : ¬ tree.BehindNode [] := by
  rintro ⟨above, key, below, entries, h, -⟩
  cases above <;> simp at h

theorem behindNode_map {entries : List (String × ConditionTree)} {key : String} {rest : Location} :
    (ConditionTree.map entries).BehindNode (key :: rest)
      ↔ "node" ∈ (Assoc.keys entries).takeWhile (· ≠ key)
          ∨ ∃ tree, Assoc.get? key entries = some tree ∧ tree.BehindNode rest := by
  constructor
  · rintro ⟨above, key', below, found, h, hat, hnode⟩
    cases above with
    | nil =>
      obtain ⟨rfl, rfl⟩ := List.cons.inj h
      obtain rfl : entries = found := by simpa using hat
      exact Or.inl hnode
    | cons first above =>
      obtain ⟨rfl, rfl⟩ := List.cons.inj h
      obtain ⟨tree, hget, hat⟩ := Option.bind_eq_some_iff.mp hat
      exact Or.inr ⟨tree, hget, above, key', below, found, rfl, hat, hnode⟩
  · rintro (hnode | ⟨tree, hget, above, key', below, found, rfl, hat, hnode⟩)
    · exact ⟨[], key, rest, entries, rfl, by simp, hnode⟩
    · exact ⟨key :: above, key', below, found, rfl, by simp [at?, hget, hat], hnode⟩

theorem behindNode_array {items : List ConditionTree} {key : String} {rest : Location} :
    (ConditionTree.array items).BehindNode (key :: rest)
      ↔ ∃ tree, Location.item? key 0 items = some tree ∧ tree.BehindNode rest := by
  constructor
  · rintro ⟨above, key', below, found, h, hat, hnode⟩
    cases above with
    | nil => simp at hat
    | cons first above =>
      obtain ⟨rfl, rfl⟩ := List.cons.inj h
      obtain ⟨tree, hget, hat⟩ := Option.bind_eq_some_iff.mp hat
      exact ⟨tree, hget, above, key', below, found, rfl, hat, hnode⟩
  · rintro ⟨tree, hget, above, key', below, found, rfl, hat, hnode⟩
    exact ⟨key :: above, key', below, found, rfl, by simp [at?, hget, hat], hnode⟩

end ConditionTree

namespace Crawl

variable {field : EntryField}

/-! ### Visits that are leaves -/

/-- The leaves among visits. -/
def leaves (visits : List Visit) : List Target := visits.filterMap Visit.target?

@[simp] theorem leaves_nil : leaves [] = [] := rfl

@[simp] theorem leaves_target (t : Target) (rest : List Visit) :
    leaves (.target t :: rest) = t :: leaves rest := rfl

@[simp] theorem leaves_finding (d : Diagnostic) (rest : List Visit) :
    leaves (.finding d :: rest) = leaves rest := rfl

@[simp] theorem leaves_append (a b : List Visit) : leaves (a ++ b) = leaves a ++ leaves b :=
  List.filterMap_append

@[simp] theorem leaves_findings (ds : List Diagnostic) : leaves (ds.map .finding) = [] := by
  induction ds with
  | nil => rfl
  | cons d rest ih => rw [List.map_cons, leaves_finding, ih]

/-- A leaf of the tree at a place below `location`, with the flag it has when `afterNode` comes from
above. -/
def IsLeaf (tree : ConditionTree) (location : Location) (afterNode : Bool) (t : Target) : Prop :=
  ∃ place, t.location = location ++ place ∧ tree.at? place = some (.leaf t.value)
    ∧ (t.afterNode = true ↔ afterNode = true ∨ tree.BehindNode place)

/-- The same among the items of an array, the first of which has a given index. -/
def IsItemLeaf (index : Nat) (items : List ConditionTree) (location : Location) (afterNode : Bool)
    (t : Target) : Prop :=
  ∃ n tree, items[n]? = some tree ∧ IsLeaf tree (location ++ [toString (index + n)]) afterNode t

/-- The same among the entries of a map. -/
def IsEntryLeaf (entries : List (String × ConditionTree)) (location : Location) (afterNode : Bool)
    (t : Target) : Prop :=
  ∃ key tree, (key, tree) ∈ entries
    ∧ IsLeaf tree (location ++ [key])
        (afterNode || decide ("node" ∈ (Assoc.keys entries).takeWhile (· ≠ key))) t

theorem isLeaf_map {entries : List (String × ConditionTree)} (h : (Assoc.keys entries).Nodup)
    {location : Location} {afterNode : Bool} {t : Target} :
    IsLeaf (.map entries) location afterNode t ↔ IsEntryLeaf entries location afterNode t := by
  constructor
  · rintro ⟨place, hloc, hat, hflag⟩
    cases place with
    | nil => simp at hat
    | cons key rest =>
      obtain ⟨tree, hget, hat⟩ := Option.bind_eq_some_iff.mp hat
      refine ⟨key, tree, Assoc.mem_of_get? hget, rest, by simp [hloc], hat, ?_⟩
      rw [hflag, ConditionTree.behindNode_map]
      simp only [hget, Option.some.injEq, exists_eq_left', Bool.or_eq_true, decide_eq_true_eq]
      tauto
  · rintro ⟨key, tree, hmem, rest, hloc, hat, hflag⟩
    have hget := Assoc.get?_of_mem h hmem
    refine ⟨key :: rest, by simp [hloc], by simp [ConditionTree.at?, hget, hat], ?_⟩
    rw [hflag, ConditionTree.behindNode_map]
    simp only [hget, Option.some.injEq, exists_eq_left', Bool.or_eq_true, decide_eq_true_eq]
    tauto

theorem isLeaf_array {items : List ConditionTree} {location : Location} {afterNode : Bool}
    {t : Target} :
    IsLeaf (.array items) location afterNode t ↔ IsItemLeaf 0 items location afterNode t := by
  constructor
  · rintro ⟨place, hloc, hat, hflag⟩
    cases place with
    | nil => simp at hat
    | cons key rest =>
      obtain ⟨tree, hget, hrest⟩ := Option.bind_eq_some_iff.mp hat
      obtain ⟨n, hn, rfl⟩ := Location.item?_eq_some hget
      refine ⟨n, tree, hn, rest, by rw [hloc, List.append_cons], hrest, ?_⟩
      rw [hflag, ConditionTree.behindNode_array, hget]
      simp
  · rintro ⟨n, tree, hn, rest, hloc, hat, hflag⟩
    have hget : Location.item? (toString (0 + n)) 0 items = some tree := by
      rw [Location.item?_toString, hn]
    refine ⟨toString (0 + n) :: rest, by rw [hloc, ← List.append_cons], ?_, ?_⟩
    · rw [ConditionTree.at?, hget]
      exact hat
    · rw [hflag, ConditionTree.behindNode_array, hget]
      simp

theorem isItemLeaf_cons {index : Nat} {tree : ConditionTree} {rest : List ConditionTree}
    {location : Location} {afterNode : Bool} {t : Target} :
    IsItemLeaf index (tree :: rest) location afterNode t
      ↔ IsLeaf tree (location ++ [toString index]) afterNode t
          ∨ IsItemLeaf (index + 1) rest location afterNode t := by
  constructor
  · rintro ⟨n, found, hn, hleaf⟩
    cases n with
    | zero =>
      obtain rfl : tree = found := by simpa using hn
      exact Or.inl hleaf
    | succ n =>
      refine Or.inr ⟨n, found, by simpa using hn, ?_⟩
      rwa [show index + 1 + n = index + (n + 1) by omega]
  · rintro (hleaf | ⟨n, found, hn, hleaf⟩)
    · exact ⟨0, tree, rfl, hleaf⟩
    · refine ⟨n + 1, found, by simpa using hn, ?_⟩
      rwa [show index + (n + 1) = index + 1 + n by omega]

/-- The flag is raised for what follows a `node` key. -/
theorem isEntryLeaf_cons {key : String} {tree : ConditionTree}
    {rest : List (String × ConditionTree)} (hkey : key ∉ Assoc.keys rest) {location : Location}
    {afterNode : Bool} {t : Target} :
    IsEntryLeaf ((key, tree) :: rest) location afterNode t
      ↔ IsLeaf tree (location ++ [key]) afterNode t
          ∨ IsEntryLeaf rest location (afterNode || key = "node") t := by
  have hlater : ∀ {other : String} {found : ConditionTree}, (other, found) ∈ rest →
      (afterNode || decide ("node" ∈ (Assoc.keys ((key, tree) :: rest)).takeWhile (· ≠ other)))
        = (afterNode || key = "node"
            || decide ("node" ∈ (Assoc.keys rest).takeWhile (· ≠ other))) := by
    intro other found hmem
    have hne : key ≠ other := by
      rintro rfl
      exact hkey (List.mem_map.mpr ⟨_, hmem, rfl⟩)
    rw [Bool.or_assoc]
    congr 1
    rw [Assoc.keys, List.map_cons, List.takeWhile_cons_of_pos (by simpa using hne)]
    by_cases hnode : key = "node"
    · simp [hnode]
    · simp [hnode, Ne.symm hnode, Assoc.keys]
  constructor
  · rintro ⟨other, found, hmem, hleaf⟩
    rcases List.mem_cons.mp hmem with heq | hmem
    · obtain ⟨rfl, rfl⟩ := Prod.mk.inj heq
      refine Or.inl ?_
      simpa [Assoc.keys] using hleaf
    · exact Or.inr ⟨other, found, hmem, hlater hmem ▸ hleaf⟩
  · rintro (hleaf | ⟨other, found, hmem, hleaf⟩)
    · refine ⟨key, tree, List.mem_cons_self, ?_⟩
      simpa [Assoc.keys] using hleaf
    · exact ⟨other, found, List.mem_cons_of_mem _ hmem, hlater hmem ▸ hleaf⟩

mutual

/-- The leaves of a crawl, with the flag that comes from above as a parameter. -/
theorem mem_visits : ∀ {tree : ConditionTree} (location : Location) (afterNode : Bool) {t : Target},
    tree.DistinctKeys →
      (t ∈ leaves (visits field location afterNode tree) ↔ IsLeaf tree location afterNode t)
  | .leaf value, location, afterNode, t, _ => by
    rw [visits, leaves_target, leaves_nil, List.mem_singleton]
    constructor
    · rintro rfl
      exact ⟨[], by simp, by simp, by simp⟩
    · rintro ⟨place, hloc, hat, hflag⟩
      cases place with
      | cons key rest => simp [ConditionTree.at?] at hat
      | nil =>
        obtain ⟨value', location', flag⟩ := t
        obtain rfl : location' = location := by simpa using hloc
        obtain rfl : value = value' := by simpa using hat
        have hflag' : flag = afterNode := Bool.eq_iff_iff.mpr (by simpa using hflag)
        rw [hflag']
  | .array items, location, afterNode, t, h => by
    rw [visits, isLeaf_array, leaves_finding]
    exact mem_itemVisits location afterNode 0 h
  | .map entries, location, afterNode, t, h => by
    rw [visits, isLeaf_map h.1, leaves_append, leaves_findings, List.nil_append]
    exact mem_entryVisits location afterNode h.1 h.2
  | .exclusion, _, _, _, _ => by
    simp only [visits, leaves_nil, List.not_mem_nil, false_iff]
    rintro ⟨place, -, hat, -⟩
    cases place <;> simp [ConditionTree.at?] at hat
  | .invalid _, _, _, _, _ => by
    simp only [visits, leaves_finding, leaves_nil, List.not_mem_nil, false_iff]
    rintro ⟨place, -, hat, -⟩
    cases place <;> simp [ConditionTree.at?] at hat

theorem mem_itemVisits : ∀ {items : List ConditionTree} (location : Location) (afterNode : Bool)
    (index : Nat) {t : Target}, ConditionTree.ItemsDistinct items →
      (t ∈ leaves (itemVisits field location afterNode index items)
        ↔ IsItemLeaf index items location afterNode t)
  | [], _, _, _, _, _ => by simp [itemVisits, IsItemLeaf]
  | tree :: rest, location, afterNode, index, t, h => by
    rw [itemVisits, leaves_append, List.mem_append, isItemLeaf_cons]
    exact or_congr (mem_visits _ _ h.1) (mem_itemVisits _ _ _ h.2)

theorem mem_entryVisits : ∀ {entries : List (String × ConditionTree)} (location : Location)
    (afterNode : Bool) {t : Target}, (Assoc.keys entries).Nodup →
      ConditionTree.EntriesDistinct entries →
      (t ∈ leaves (entryVisits field location afterNode entries)
        ↔ IsEntryLeaf entries location afterNode t)
  | [], _, _, _, _, _ => by simp [entryVisits, IsEntryLeaf]
  | (key, tree) :: rest, location, afterNode, t, hk, h => by
    rw [Assoc.keys, List.map_cons, List.nodup_cons] at hk
    rw [entryVisits, leaves_append, leaves_append, leaves_findings, List.nil_append,
      List.mem_append, isEntryLeaf_cons hk.1]
    exact or_congr (mem_visits _ _ h.1) (mem_entryVisits _ _ hk.2 h.2)

end

/-! ### Places of leaves -/

theorem nodup_append_of_places {a b : List Target} (ha : (a.map Target.location).Nodup)
    (hb : (b.map Target.location).Nodup)
    (hab : ∀ t ∈ a, ∀ u ∈ b, t.location ≠ u.location) : ((a ++ b).map Target.location).Nodup := by
  rw [List.map_append]
  refine List.Nodup.append ha hb ?_
  intro p hp hp'
  obtain ⟨t, ht, rfl⟩ := List.mem_map.mp hp
  obtain ⟨u, hu, heq⟩ := List.mem_map.mp hp'
  exact hab t ht u hu heq.symm

/-- Leaves below different keys of one place have different places. -/
theorem location_ne_of_key_ne {tree tree' : ConditionTree} {location : Location}
    {key key' : String} {flag flag' : Bool} {t u : Target} (hne : key ≠ key')
    (ht : IsLeaf tree (location ++ [key]) flag t) (hu : IsLeaf tree' (location ++ [key']) flag' u) :
    t.location ≠ u.location := by
  obtain ⟨p, hp, -⟩ := ht
  obtain ⟨q, hq, -⟩ := hu
  rw [hp, hq]
  intro h
  simp only [List.append_assoc, List.append_cancel_left_eq] at h
  exact hne (List.cons.inj h).1

mutual

theorem nodup_visits : ∀ {tree : ConditionTree} (location : Location) (afterNode : Bool),
    tree.DistinctKeys →
      ((leaves (visits field location afterNode tree)).map Target.location).Nodup
  | .leaf _, _, _, _ => by simp [visits]
  | .array items, location, afterNode, h => by
    rw [visits, leaves_finding]
    exact nodup_itemVisits location afterNode 0 h
  | .map entries, location, afterNode, h => by
    rw [visits, leaves_append, leaves_findings, List.nil_append]
    exact nodup_entryVisits location afterNode h.1 h.2
  | .exclusion, _, _, _ | .invalid _, _, _, _ => by simp [visits]

theorem nodup_itemVisits : ∀ {items : List ConditionTree} (location : Location) (afterNode : Bool)
    (index : Nat), ConditionTree.ItemsDistinct items →
      ((leaves (itemVisits field location afterNode index items)).map Target.location).Nodup
  | [], _, _, _, _ => by simp [itemVisits]
  | tree :: rest, location, afterNode, index, h => by
    rw [itemVisits, leaves_append]
    refine nodup_append_of_places (nodup_visits _ _ h.1) (nodup_itemVisits _ _ _ h.2) ?_
    intro t ht u hu
    obtain ⟨n, _, -, hleaf⟩ := (mem_itemVisits _ _ _ h.2).mp hu
    refine location_ne_of_key_ne ?_ ((mem_visits _ _ h.1).mp ht) hleaf
    intro heq
    have := Nat.repr_injective heq
    omega

theorem nodup_entryVisits : ∀ {entries : List (String × ConditionTree)} (location : Location)
    (afterNode : Bool), (Assoc.keys entries).Nodup → ConditionTree.EntriesDistinct entries →
      ((leaves (entryVisits field location afterNode entries)).map Target.location).Nodup
  | [], _, _, _, _ => by simp [entryVisits]
  | (key, tree) :: rest, location, afterNode, hk, h => by
    rw [Assoc.keys, List.map_cons, List.nodup_cons] at hk
    rw [entryVisits, leaves_append, leaves_append, leaves_findings, List.nil_append]
    refine nodup_append_of_places (nodup_visits _ _ h.1) (nodup_entryVisits _ _ hk.2 h.2) ?_
    intro t ht u hu
    obtain ⟨other, found, hmem, hleaf⟩ := (mem_entryVisits _ _ hk.2 h.2).mp hu
    refine location_ne_of_key_ne ?_ ((mem_visits _ _ h.1).mp ht) hleaf
    rintro rfl
    exact hk.1 (List.mem_map.mpr ⟨_, hmem, rfl⟩)

end

/-! ### Whole crawls -/

/-- A crawl visits the leaves of a tree, each at its place, with a flag that says whether the place
lies behind a `node` key. -/
theorem mem_targets {tree : ConditionTree} (h : tree.DistinctKeys) {location : Location}
    {t : Target} :
    t ∈ targets field location tree
      ↔ ∃ place, t.location = location ++ place ∧ tree.at? place = some (.leaf t.value)
          ∧ (t.afterNode = true ↔ tree.BehindNode place) := by
  refine (mem_visits location false h).trans (exists_congr fun place => ?_)
  simp

/-- A leaf of a tree is visited. -/
theorem exists_target {tree : ConditionTree} (h : tree.DistinctKeys) {location place : Location}
    {value : String} (hat : tree.at? place = some (.leaf value)) :
    ∃ t ∈ targets field location tree, t.location = location ++ place ∧ t.value = value
      ∧ (t.afterNode = true ↔ tree.BehindNode place) := by
  classical
  exact ⟨⟨value, location ++ place, decide (tree.BehindNode place)⟩,
    (mem_targets h).mpr ⟨place, rfl, hat, decide_eq_true_iff⟩, rfl, rfl, decide_eq_true_iff⟩

/-- No two leaves of a crawl have one place. -/
theorem nodup_targets {tree : ConditionTree} (h : tree.DistinctKeys) (location : Location) :
    ((targets field location tree).map Target.location).Nodup :=
  nodup_visits location false h

end Crawl

end PackageLint
