import PackageLint.Proofs.NodeFindings
import PackageLint.Proofs.PublishedPlaces

/-!
# Keys of imports

The keys of an imports object start with `#`; the conditions below them do not. The crawl is to report
keys of the top level only, but it has no notion of a level: it takes a map for the top one when the
last key of its place is `imports`. So does a map that stands under a condition of that name, at
whatever depth, and its conditions are reported as well.

## What holds all the same

Every key of the top level is judged, and once, whether `imports` is overridden or not. The findings
that are too many come from maps under a key `imports` and from nowhere else, and where there is no
such map, or all of its keys start with `#`, the findings are those of the top level.

## Order

The crawl judges a key right before it descends into its value, and a list of nodes has a map before
all that is below it. The findings are therefore those of the nodes up to order only, which is why
they are compared as a permutation.

## Main definitions

* `Crawl.KeyVerdict` — the findings about keys of imports

## Main results

* `Crawl.keyed_visits` — a crawl judges the keys of each map in turn, up to order
* `Crawl.exists_node_of_mem_findings` — whatever a crawl finds by itself is found at a node
* `Crawl.import_keys_exact_iff` — the findings, and when they are about the top level only
-/

namespace PackageLint.Crawl

/-- The findings about keys of an imports tree at a location: they are about keys of the tree itself
and of maps under a key `imports`. -/
inductive KeyVerdict (location : Location) (tree : ConditionTree) : Diagnostic → Prop
  | intro {place entries key} (hat : tree.at? place = some (.map entries))
      (hplace : place = [] ∨ place.getLast? = some "imports") (hkey : key ∈ Assoc.keys entries)
      (hhash : Text.hasStart key "#" = false) :
      KeyVerdict location tree (badImportKey (location ++ place) key)

variable {field : EntryField} {location : Location} {d : Diagnostic} {key : String}
  {entries : List (String × ConditionTree)}

/-! ### Findings of single nodes -/

theorem mem_keyFindings :
    d ∈ keyFindings field location key
      ↔ needsHash field location = true ∧ Text.hasStart key "#" = false
          ∧ d = badImportKey location key := by
  simp [keyFindings, and_assoc]

/-- The findings about the keys of a node. -/
def keysDue (field : EntryField) (location : Location) : ConditionTree → List Diagnostic
  | .map entries => entries.flatMap fun e => keyFindings field location e.1
  | .leaf _ | .array _ | .exclusion | .invalid _ => []

theorem mem_keysDue {node : ConditionTree} :
    d ∈ keysDue field location node
      ↔ needsHash field location = true ∧ ∃ entries key, node = .map entries
          ∧ key ∈ Assoc.keys entries ∧ Text.hasStart key "#" = false
          ∧ d = badImportKey location key := by
  cases node with
  | map entries =>
    rw [keysDue, List.mem_flatMap]
    constructor
    · rintro ⟨e, he, hd⟩
      obtain ⟨hneeds, hhash, rfl⟩ := mem_keyFindings.mp hd
      exact ⟨hneeds, entries, e.1, rfl, List.mem_map_of_mem he, hhash, rfl⟩
    · rintro ⟨hneeds, found, key, hnode, hkey, hhash, rfl⟩
      obtain rfl := ConditionTree.map.inj hnode
      obtain ⟨e, he, rfl⟩ := List.mem_map.mp hkey
      exact ⟨e, he, mem_keyFindings.mpr ⟨hneeds, hhash, rfl⟩⟩
  | leaf _ | array _ | exclusion | invalid _ => simp [keysDue]

/-- A finding tells the node whose key it is about. -/
theorem location_of_mem_keysDue {node : ConditionTree} (h : d ∈ keysDue field location node) :
    d.location.dropLast = location := by
  obtain ⟨-, _, key, -, -, -, rfl⟩ := mem_keysDue.mp h
  exact List.dropLast_concat

theorem nodup_keysDue {node : ConditionTree} (h : node.DistinctKeys) :
    (keysDue field location node).Nodup := by
  cases node with
  | map entries =>
    refine List.nodup_flatMap.mpr ⟨fun e _ => ?_, (List.pairwise_map.mp h.1).imp ?_⟩
    · rw [keyFindings]
      split <;> simp
    · intro e e' hne d hd hd'
      obtain ⟨-, -, rfl⟩ := mem_keyFindings.mp hd
      obtain ⟨-, -, heq⟩ := mem_keyFindings.mp hd'
      exact hne (by simpa [badImportKey] using congrArg Diagnostic.location heq)
  | leaf _ | array _ | exclusion | invalid _ => exact List.nodup_nil

/-! ### The walk -/

/-- The findings about keys of imports among visits. -/
def keyed (visits : List Visit) : List Diagnostic :=
  (visits.filterMap Visit.finding?).filter fun d => d.code = .importsKeyInvalid

@[simp] theorem keyed_append (a b : List Visit) : keyed (a ++ b) = keyed a ++ keyed b := by
  simp [keyed]

theorem keyed_finding (h : d.code ≠ .importsKeyInvalid) (rest : List Visit) :
    keyed (.finding d :: rest) = keyed rest := by
  simp [keyed, Visit.finding?, h]

theorem keyed_orderFindings :
    keyed ((orderFindings field location entries).map .finding) = [] := by
  rw [keyed, filterMap_finding?, List.filter_eq_nil_iff]
  exact fun d hd => by simpa using code_ne_of_mem_orderFindings hd

theorem keyed_keyFindings :
    keyed ((keyFindings field location key).map .finding) = keyFindings field location key := by
  rw [keyed, filterMap_finding?, List.filter_eq_self]
  intro d hd
  obtain ⟨-, -, rfl⟩ := mem_keyFindings.mp hd
  rfl

mutual

/-- A crawl judges the keys of each map in turn. -/
theorem keyed_visits : ∀ (tree : ConditionTree) (location : Location) (afterNode : Bool),
    (keyed (visits field location afterNode tree)).Perm
      ((tree.nodes location).flatMap fun n => keysDue field n.1 n.2)
  | .leaf _, _, _ | .exclusion, _, _ => .refl _
  | .invalid value, location, _ => by
    rw [visits, keyed_finding (by simp [invalidNode])]
    exact .refl _
  | .array items, location, afterNode => by
    rw [visits, keyed_finding (by simp [arrayUse])]
    exact keyed_itemVisits items location afterNode 0
  | .map entries, location, afterNode => by
    rw [visits, keyed_append, keyed_orderFindings, List.nil_append]
    exact keyed_entryVisits entries location afterNode

theorem keyed_itemVisits : ∀ (items : List ConditionTree) (location : Location)
    (afterNode : Bool) (index : Nat),
    (keyed (itemVisits field location afterNode index items)).Perm
      ((ConditionTree.itemNodes location index items).flatMap fun n => keysDue field n.1 n.2)
  | [], _, _, _ => .refl _
  | tree :: rest, location, afterNode, index => by
    rw [itemVisits, keyed_append, ConditionTree.itemNodes, List.flatMap_append]
    exact (keyed_visits tree _ afterNode).append (keyed_itemVisits rest location afterNode _)

theorem keyed_entryVisits : ∀ (entries : List (String × ConditionTree)) (location : Location)
    (afterNode : Bool),
    (keyed (entryVisits field location afterNode entries)).Perm
      (keysDue field location (.map entries)
        ++ (ConditionTree.entryNodes location entries).flatMap fun n => keysDue field n.1 n.2)
  | [], _, _ => .refl _
  | (key, tree) :: rest, location, afterNode => by
    rw [entryVisits, keyed_append, keyed_append, keyed_keyFindings, ConditionTree.entryNodes,
      List.flatMap_append, keysDue, List.flatMap_cons, List.append_assoc, List.append_assoc]
    refine List.Perm.append_left _ ?_
    -- what is below the entry comes before the keys that follow it
    exact ((keyed_visits tree _ afterNode).append
      (keyed_entryVisits rest location (afterNode || key = "node"))).trans
        (List.perm_append_comm_assoc _ _ _)

end

/-- What a crawl finds by itself is found at a node of the tree: in its kind and the order of its keys, or
in a key of imports. -/
theorem exists_node_of_mem_findings {tree : ConditionTree} (h : d ∈ findings field location tree) :
    ∃ n ∈ tree.nodes location, d ∈ nodeFindings field n.1 n.2 ∨ d ∈ keysDue field n.1 n.2 := by
  by_cases hcode : d.code = .importsKeyInvalid
  · have hkeyed : d ∈ keyed (visits field location false tree) :=
      List.mem_filter.mpr ⟨h, decide_eq_true hcode⟩
    rw [(keyed_visits tree location false).mem_iff, List.mem_flatMap] at hkeyed
    obtain ⟨n, hn, hd⟩ := hkeyed
    exact ⟨n, hn, Or.inr hd⟩
  · have hsettled : d ∈ settled (visits field location false tree) :=
      List.mem_filter.mpr ⟨h, decide_eq_true hcode⟩
    rw [settled_visits, List.mem_flatMap] at hsettled
    obtain ⟨n, hn, hd⟩ := hsettled
    exact ⟨n, hn, Or.inl hd⟩

/-- The keys of a map are judged at the top and under a key `imports`. -/
theorem needsHash_below {place : Location} (h : location.getLast? = some "imports") :
    needsHash .imports (location ++ place) = true
      ↔ place = [] ∨ place.getLast? = some "imports" := by
  rcases List.eq_nil_or_concat place with rfl | ⟨front, last, rfl⟩ <;> simp [needsHash, h]

/-- What a crawl of imports finds about keys, each finding once. -/
theorem keyed_findings (h : location.getLast? = some "imports") {tree : ConditionTree}
    (hd : tree.DistinctKeys) :
    let found := (findings .imports location tree).filter fun d => d.code = .importsKeyInvalid
    found.Nodup ∧ ∀ d, d ∈ found ↔ KeyVerdict location tree d := by
  intro found
  have hperm : found.Perm ((tree.nodes location).flatMap fun n => keysDue .imports n.1 n.2) :=
    keyed_visits tree location false
  constructor
  · refine hperm.nodup_iff.mpr (List.nodup_flatMap.mpr ⟨fun n hn => ?_, ?_⟩)
    · obtain ⟨place, -, hat⟩ := (ConditionTree.mem_nodes location hd).mp hn
      exact nodup_keysDue (hd.at? hat)
    · refine (List.pairwise_map.mp (ConditionTree.nodup_places location hd)).imp ?_
      intro m n hne d hm hn
      exact hne ((location_of_mem_keysDue hm).symm.trans (location_of_mem_keysDue hn))
  · intro d
    rw [hperm.mem_iff, List.mem_flatMap]
    constructor
    · rintro ⟨⟨p, node⟩, hnode, hdue⟩
      obtain ⟨place, rfl, hat⟩ := (ConditionTree.mem_nodes location hd).mp hnode
      obtain ⟨hneeds, entries, key, rfl, hkey, hhash, rfl⟩ := mem_keysDue.mp hdue
      exact .intro hat ((needsHash_below h).mp hneeds) hkey hhash
    · rintro ⟨hat, hplace, hkey, hhash⟩
      refine ⟨_, (ConditionTree.mem_nodes location hd).mpr ⟨_, rfl, hat⟩, mem_keysDue.mpr ?_⟩
      exact ⟨(needsHash_below h).mpr hplace, _, _, rfl, hkey, hhash, rfl⟩

/-! ### The top level -/

/-- The findings are those of the top level just when the maps under keys `imports` give rise to
none. -/
theorem keyVerdict_top_iff (location : Location) (entries : List (String × ConditionTree)) :
    (∀ d, KeyVerdict location (.map entries) d
        ↔ ∃ key ∈ Assoc.keys entries, Text.hasStart key "#" = false ∧ d = badImportKey location key)
      ↔ ∀ place inner, (ConditionTree.map entries).at? (place ++ ["imports"]) = some (.map inner) →
          ∀ key ∈ Assoc.keys inner, Text.hasStart key "#" = true := by
  constructor
  · intro htop place inner hat key hkey
    by_contra hhash
    have hverdict : KeyVerdict location (.map entries)
        (badImportKey (location ++ (place ++ ["imports"])) key) :=
      .intro hat (Or.inr (by simp)) hkey (by simpa using hhash)
    -- its place is longer than that of any key of the top level
    obtain ⟨_, -, -, heq⟩ := (htop _).mp hverdict
    have hlength := congrArg (fun d : Diagnostic => d.location.length) heq
    simp [badImportKey] at hlength
  · intro hnested d
    constructor
    · rintro ⟨hat, hplace, hkey, hhash⟩
      rcases hplace with rfl | hlast
      · obtain rfl := ConditionTree.map.inj (Option.some.inj hat)
        exact ⟨_, hkey, hhash, by rw [List.append_nil]⟩
      · obtain ⟨front, rfl⟩ := List.getLast?_eq_some_iff.mp hlast
        simp [hnested front _ hat _ hkey] at hhash
    · rintro ⟨key, hkey, hhash, rfl⟩
      have htop : KeyVerdict location (.map entries) (badImportKey (location ++ []) key) :=
        .intro (ConditionTree.at?_nil _) (Or.inl rfl) hkey hhash
      rwa [List.append_nil] at htop

/-- A crawl of imports reports keys that do not start with `#`, each of them once: those of the top
level, and those of maps under a key `imports`. So the findings are exactly those of the top level when,
and only when, all keys of such maps start with `#`. The place of the field has no part in this. -/
theorem import_keys_exact_iff
    (hlocation : location = ["imports"] ∨ location = [overridesKey, "imports"])
    (hd : (ConditionTree.map entries).DistinctKeys) :
    let found := (findings .imports location (.map entries)).filter fun d =>
      d.code = .importsKeyInvalid
    found.Nodup
      ∧ (∀ d, d ∈ found ↔ KeyVerdict location (.map entries) d)
      ∧ ((∀ d, d ∈ found ↔ ∃ key ∈ Assoc.keys entries, Text.hasStart key "#" = false
            ∧ d = badImportKey location key)
          ↔ ∀ place inner,
              (ConditionTree.map entries).at? (place ++ ["imports"]) = some (.map inner) →
                ∀ key ∈ Assoc.keys inner, Text.hasStart key "#" = true) := by
  have hlast : location.getLast? = some "imports" := by
    rcases hlocation with rfl | rfl <;> rfl
  intro found
  obtain ⟨hnodup, hfound⟩ := keyed_findings hlast hd
  refine ⟨hnodup, hfound, ?_⟩
  rw [← keyVerdict_top_iff location entries]
  refine forall_congr' fun d => ?_
  rw [hfound d]

/-- A condition below a condition `imports` is reported, at a place that is none of the top level. -/
theorem nested_condition_reported :
    let entries : List (String × ConditionTree) :=
      [("#a", .map [("imports", .map [("node", .leaf "dep")])])]
    (ConditionTree.map entries).DistinctKeys
      ∧ badImportKey ["imports", "#a", "imports"] "node"
        ∈ findings .imports ["imports"] (.map entries)
      ∧ ∀ key ∈ Assoc.keys entries,
          badImportKey ["imports", "#a", "imports"] "node" ≠ badImportKey ["imports"] key := by
  intro entries
  have hd : (ConditionTree.map entries).DistinctKeys := by
    simp [entries, ConditionTree.DistinctKeys, ConditionTree.EntriesDistinct, Assoc.keys]
  have hat : (ConditionTree.map entries).at? ["#a", "imports"]
      = some (.map [("node", .leaf "dep")]) := by
    simp [entries, ConditionTree.at?, Assoc.get?]
  have hverdict : KeyVerdict ["imports"] (.map entries)
      (badImportKey (["imports"] ++ ["#a", "imports"]) "node") :=
    .intro hat (Or.inr rfl) List.mem_cons_self (by decide)
  obtain ⟨-, hfound, -⟩ := import_keys_exact_iff (Or.inl rfl) hd
  exact ⟨hd, List.mem_of_mem_filter ((hfound _).mpr hverdict), by simp [badImportKey]⟩

end PackageLint.Crawl
