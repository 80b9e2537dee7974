import PackageLint.Proofs.ReorderedSubpaths
import PackageLint.Proofs.TextParts

/-!
# Folder mappings and the patterns that replace them

A subpath of `exports` that ends with a slash maps a whole folder. Such mappings are no longer served:
one is reported, and then read as the pattern that is to replace it, whose key and target both end with
a star. So a pass over the manifest that has the pattern in place of the mapping reports the same, at
the key of the pattern, without the report on the mapping itself.

There is one thing that the mapping does not share with its pattern. A null key hides a file if it
matches the key of the entry with what the stars stand for put in. The key of a mapping has no star to
put anything in, so a null key below the folder hides its files from the pattern, but not from the
mapping. The two passes are therefore compared where null keys hide the same files from both.

## Main definitions

* `Location.rename` — places with one key renamed
* `FolderMapping` — a folder mapping among the entries of `exports`
* `FolderMapping.starred` — the entries with the pattern in its place
* `FolderMapping.HidesAlike` — null keys hide the same files from both

## Main results

* `Crawl.orderFindings_map` — what is said about the order of keys when entries are replaced
* `Mirror.agree_starredEntry` — the plan for the condition tree with the pattern
* `Pass.diagnostics_starred` — the passes before and after
-/

namespace PackageLint

open Diagnostic (move)
open Pass (Fields)

/-! ### Starts and ends of texts -/

namespace Text

variable {s other : String}

theorem hasEnd_star (s : String) : hasEnd (s ++ "*") "*" = true := by
  rw [hasEnd, List.isSuffixOf_iff_suffix, String.toList_append]
  exact List.suffix_append _ _

theorem hasEnd_star_slash (s : String) : hasEnd (s ++ "*") "/" = false :=
  hasEnd_eq_false (hasEnd_star s) (by decide) (by decide)

end Text

/-- An entry does not matter to what other keys lead to. -/
theorem Assoc.get?_around {α : Type} {key other : String} (h : other ≠ key) (front back : Assoc α)
    (value : α) :
    Assoc.get? other (front ++ (key, value) :: back) = Assoc.get? other (front ++ back) := by
  induction front with
  | nil => rw [List.nil_append, List.nil_append, Assoc.get?, if_neg (Ne.symm h)]
  | cons entry rest ih => rw [List.cons_append, List.cons_append, Assoc.get?, Assoc.get?, ih]

/-- Searches for one pattern that hide the same find the same. -/
theorem Subpath.Search.finds_congr {search search' : Search}
    (hpattern : search'.pattern = search.pattern) (hhides : search'.hides = search.hides) :
    search'.finds = search.finds := by
  funext path
  rw [finds, finds, hpattern, hhides]

/-! ### Renaming a key -/

namespace Location

/-- A place with a key renamed that comes right after a front. -/
def rename (front : Location) (key key' : String) (location : Location) : Location :=
  if front ++ [key] <+: location then front ++ key' :: location.drop (front.length + 1)
  else location

variable {front : Location} {key key' other : String}

theorem rename_self (rest : List String) :
    rename front key key' (front ++ key :: rest) = front ++ key' :: rest := by
  have hprefix : front ++ [key] <+: front ++ key :: rest := ⟨rest, by simp⟩
  rw [rename, if_pos hprefix, List.drop_append, List.drop_eq_nil_of_le (Nat.le_succ _)]
  simp

theorem rename_of_ne (h : other ≠ key) (rest : List String) :
    rename front key key' (front ++ other :: rest) = front ++ other :: rest := by
  refine if_neg fun hprefix => h ?_
  rw [List.prefix_append_right_inj, List.cons_prefix_cons] at hprefix
  exact hprefix.1.symm

/-- Places that do not go on from the front stay. -/
theorem rename_of_not_prefix {location : Location} (h : ¬ front <+: location) :
    rename front key key' location = location :=
  if_neg fun hprefix => h ((List.prefix_append front [key]).trans hprefix)

theorem rename_front : rename front key key' front = front := by
  refine if_neg fun hprefix => ?_
  have hlength := hprefix.length_le
  rw [List.length_append, List.length_singleton] at hlength
  omega

end Location

/-! ### Crawls -/

namespace Crawl

section

variable {g : String → String} {kept : String} (hg : ∀ key, g key = kept ↔ key = kept)

include hg

theorem contains_map_keys (keys : List String) : (keys.map g).contains kept = keys.contains kept := by
  rw [Bool.eq_iff_iff, List.contains_iff_mem, List.contains_iff_mem]
  simp only [List.mem_map, hg, exists_eq_right]

theorem takeWhile_map_keys (keys : List String) :
    (keys.map g).takeWhile (· ≠ kept) = (keys.takeWhile (· ≠ kept)).map g := by
  have hne : (fun key => decide (key ≠ kept)) ∘ g = fun key => decide (key ≠ kept) :=
    funext fun key => decide_eq_decide.mpr (not_congr (hg key))
  rw [List.takeWhile_map, hne]

theorem declaredAfter_map_keys {second : String} (hsecond : ∀ key, g key = second ↔ key = second)
    (keys : List String) :
    declaredAfter kept second (keys.map g) = declaredAfter kept second keys := by
  rw [declaredAfter, declaredAfter, contains_map_keys hg, takeWhile_map_keys hg,
    contains_map_keys hsecond]

theorem getLast?_map_keys (keys : List String) :
    ((keys.map g).getLast? != some kept) = (keys.getLast? != some kept) := by
  rw [List.getLast?_map]
  cases keys.getLast? with
  | none => rfl
  | some key => simp [bne, hg]

end

variable {field : EntryField} {location : Location} {entries : List (String × ConditionTree)}

/-- The order of keys is judged alike where entries are replaced by such as count the same for it. -/
theorem orderFindings_map {g : String → String} {f : String × ConditionTree → ConditionTree}
    (hg : ∀ kept ∈ orderedKeys, ∀ key, g key = kept ↔ key = kept)
    (htyped : ∀ entry ∈ entries, mayPrecedeTypes (g entry.1, f entry) = mayPrecedeTypes entry)
    (hbelow : ∀ entry ∈ entries, (f entry).hasKeyBelow "types" = entry.2.hasKeyBelow "types") :
    orderFindings field location (entries.map fun entry => (g entry.1, f entry))
      = orderFindings field location entries := by
  have hkeys : (entries.map fun entry => (g entry.1, f entry)).map Prod.fst
      = (entries.map Prod.fst).map g := by rw [List.map_map, List.map_map]; rfl
  have htypes : typesTooLate (entries.map fun entry => (g entry.1, f entry)) = typesTooLate entries := by
    have hne : (fun entry : String × ConditionTree => decide (entry.1 ≠ "types"))
        ∘ (fun entry => (g entry.1, f entry)) = fun entry => decide (entry.1 ≠ "types") :=
      funext fun entry => decide_eq_decide.mpr (not_congr (hg "types" (by decide) entry.1))
    have hmem : ∀ entry ∈ entries.takeWhile fun entry => decide (entry.1 ≠ "types"), entry ∈ entries :=
      fun entry h => (List.takeWhile_sublist _).mem h
    have hfilter : (entries.takeWhile fun entry => decide (entry.1 ≠ "types")).filter
          ((fun entry => !mayPrecedeTypes entry) ∘ fun entry => (g entry.1, f entry))
        = (entries.takeWhile fun entry => decide (entry.1 ≠ "types")).filter
          fun entry => !mayPrecedeTypes entry :=
      List.filter_congr fun entry h => congrArg (! ·) (htyped entry (hmem entry h))
    simp only [typesTooLate, List.takeWhile_map, hne, List.filter_map, hfilter, List.length_map,
      List.isEmpty_map, List.any_map]
    refine congrArg₂ (· && ·) rfl (congrArg (! ·) ?_)
    rw [Bool.eq_iff_iff, List.any_eq_true, List.any_eq_true]
    refine exists_congr fun entry => and_congr_right fun h => ?_
    rw [Function.comp_apply, hbelow entry (hmem entry (List.mem_of_mem_filter h))]
  have hmodule := hg "module" (by decide)
  have hdefault := hg "default" (by decide)
  simp only [orderFindings, hkeys, htypes, declaredAfter_map_keys hmodule (hg "require" (by decide)),
    contains_map_keys hdefault, getLast?_map_keys hdefault]

/-- The entries of a map are crawled one part after the other. -/
theorem entryVisits_append (front back : List (String × ConditionTree)) (afterNode : Bool) :
    entryVisits field location afterNode (front ++ back)
      = entryVisits field location afterNode front
        ++ entryVisits field location (afterNode || (Assoc.keys front).contains "node") back := by
  induction front generalizing afterNode with
  | nil => simp [entryVisits, Assoc.keys]
  | cons entry rest ih =>
    obtain ⟨key, tree⟩ := entry
    have hflag : (afterNode || decide (key = "node") || (Assoc.keys rest).contains "node")
        = (afterNode || (Assoc.keys ((key, tree) :: rest)).contains "node") := by
      have hnode : decide (key = "node") = ("node" == key) := by
        rw [Bool.eq_iff_iff, decide_eq_true_iff, beq_iff_eq, eq_comm]
      rw [Assoc.keys, Assoc.keys, List.map_cons, List.contains_cons, hnode, Bool.or_assoc]
    rw [List.cons_append, entryVisits, entryVisits, ih, hflag]
    simp only [List.append_assoc]

/-- A crawl stays where it is when no place below its entries is moved. -/
theorem entryVisits_fixed {m : Location → Location}
    (hm : ∀ key ∈ Assoc.keys entries, ∀ rest, m (location ++ key :: rest) = location ++ key :: rest)
    (afterNode : Bool) :
    (entryVisits field location afterNode entries).map (Visit.move m)
      = entryVisits field location afterNode entries := by
  induction entries generalizing afterNode with
  | nil => rfl
  | cons entry rest ih =>
    obtain ⟨key, tree⟩ := entry
    have hkey := hm key List.mem_cons_self
    have hcarries : (location ++ [key]).Carries m := by
      intro keys
      rw [hkey [], List.append_assoc]
      exact hkey keys
    have hhash : needsHash field (m (location ++ [key])) = needsHash field (location ++ [key]) := by
      rw [hkey []]
    have hvisits := visits_move hcarries hhash afterNode tree
    rw [hkey []] at hvisits
    have hfindings : ((keyFindings field location key).map Visit.finding).map (Visit.move m)
        = (keyFindings field location key).map Visit.finding := by
      conv_rhs => rw [← map_move_keyFindings (hkey []) rfl]
      rw [List.map_map, List.map_map]
      rfl
    rw [entryVisits, List.map_append, List.map_append, hfindings, ← hvisits,
      ih fun other hother => hm other (List.mem_cons_of_mem _ hother)]

end Crawl

/-! ### Folder mappings -/

/-- A folder mapping among the entries of `exports`: a subpath and a target that both end with a slash,
beside which the pattern that replaces it is not there. -/
structure FolderMapping where
  /-- The entries before it. -/
  front : Json.Fields
  /-- Its key. -/
  key : String
  /-- Its target. -/
  value : String
  /-- The entries after it. -/
  back : Json.Fields
  key_start : Text.hasStart key "./" = true
  key_slash : Text.hasEnd key "/" = true
  value_start : Text.hasStart value "./" = true
  value_slash : Text.hasEnd value "/" = true
  distinct : key ∉ Assoc.keys front ++ Assoc.keys back
  unstarred : key ++ "*" ∉ Assoc.keys front ++ Assoc.keys back

namespace FolderMapping

/-- All entries. -/
def fields (mapping : FolderMapping) : Json.Fields :=
  mapping.front ++ (mapping.key, .str mapping.value) :: mapping.back

/-- The key of the pattern that replaces the mapping. -/
def starredKey (mapping : FolderMapping) : String := mapping.key ++ "*"

/-- The target of the pattern that replaces the mapping. -/
def starredValue (mapping : FolderMapping) : String := mapping.value ++ "*"

/-- The entries with the pattern in place of the mapping. -/
def starred (mapping : FolderMapping) : Json.Fields :=
  mapping.front ++ (mapping.starredKey, .str mapping.starredValue) :: mapping.back

/-- The finding about the mapping, where `exports` is published at a place. -/
def deprecated (mapping : FolderMapping) (location : Location) : Diagnostic :=
  { code := .entry .exports .globNoDeprecatedSubpathMapping, severity := .error
    location := location ++ [mapping.key]
    args :=
      [("expect_path", .strs (location ++ [mapping.starredKey])),
       ("expect_value", .str mapping.starredValue)] }

/-- The place in the entries with the pattern that a place in the entries with the mapping becomes. -/
def move (mapping : FolderMapping) (location : Location) : Location → Location :=
  Location.rename location mapping.key mapping.starredKey

/-- The search for the files of the folder on behalf of a key. -/
def search (mapping : FolderMapping) (pkgDir key : String) : Subpath.Search :=
  { pattern := Path.join pkgDir mapping.starredValue, key := some key
    tree := some (.map (ConditionTree.ofFields mapping.fields)) }

/-- Null keys hide the same files of a tree from the mapping and from the pattern that replaces it. -/
def HidesAlike (mapping : FolderMapping) (tree : FileTree) (pkgDir : String) : Prop :=
  ∀ path, tree.Readable path →
    (mapping.search pkgDir mapping.starredKey).finds path
      = (mapping.search pkgDir mapping.key).finds path

/-- Where null keys hide the same on behalf of both keys, they hide the same files of every tree. -/
theorem hidesAlike_of_hides {mapping : FolderMapping} {pkgDir : String}
    (h : (mapping.search pkgDir mapping.starredKey).hides
      = (mapping.search pkgDir mapping.key).hides) (tree : FileTree) :
    mapping.HidesAlike tree pkgDir := by
  have hfinds : (mapping.search pkgDir mapping.starredKey).finds
      = (mapping.search pkgDir mapping.key).finds := Subpath.Search.finds_congr rfl h
  exact fun path _ => congrFun hfinds path

variable (mapping : FolderMapping)

/-- Null keys hide all files of a mapping or none: without a star in its key, what the star of the
pattern stands for does not count. -/
theorem hides_key (hplain : Pattern.hasWildcard mapping.key = false) (pkgDir capture : String) :
    (mapping.search pkgDir mapping.key).hides capture
      = (Subpath.Search.nullKeys (.map (ConditionTree.ofFields mapping.fields))).any
          fun pattern => pattern.accepts mapping.key := by
  have hkey : mapping.key ≠ "" := by
    intro hempty
    have hstart := mapping.key_start
    rw [hempty] at hstart
    exact absurd hstart (by decide)
  have hsubstitute : Subpath.Search.substitute mapping.key capture = mapping.key := by
    rw [Subpath.Search.substitute, Text.replaceFirst?_of_not_mem (by simpa [Pattern.hasWildcard] using hplain)]
    rfl
  simp only [Subpath.Search.hides, Subpath.Search.hidingKeys, search, if_neg hkey, Option.getD_some,
    hsubstitute]

/-! ### Keys -/

theorem starredKey_start : Text.hasStart mapping.starredKey "./" = true :=
  Text.hasStart_append mapping.key_start "*"

theorem starredValue_start : Text.hasStart mapping.starredValue "./" = true :=
  Text.hasStart_append mapping.value_start "*"

theorem starredKey_ne : mapping.starredKey ≠ mapping.key := by
  intro heq
  have hslash := Text.hasEnd_star_slash mapping.key
  rw [show mapping.key ++ "*" = mapping.key from heq, mapping.key_slash] at hslash
  exact absurd hslash (by decide)

/-- The key of the mapping and that of the pattern are none of the keys that are no subpaths. -/
theorem ne_of_start {other : String} (hother : Text.hasStart other "./" = false) :
    mapping.key ≠ other ∧ mapping.starredKey ≠ other := by
  have hne : ∀ key : String, Text.hasStart key "./" = true → key ≠ other := by
    rintro key hkey rfl
    exact absurd hkey (by simp [hother])
  exact ⟨hne _ mapping.key_start, hne _ mapping.starredKey_start⟩

/-- The keys of the entries, with that of the pattern in place of that of the mapping. -/
def rekey (key : String) : String := if key = mapping.key then mapping.starredKey else key

theorem rekey_eq_iff {kept : String} (hkept : Text.hasStart kept "./" = false) (key : String) :
    mapping.rekey key = kept ↔ key = kept := by
  obtain ⟨hne, hne'⟩ := mapping.ne_of_start hkept
  rw [rekey]
  split
  next heq => exact ⟨fun h => absurd h hne', fun h => absurd (heq ▸ h) hne⟩
  next => rfl

/-! ### Entries -/

/-- What an entry leads to, with the target of the pattern in place of that of the mapping. -/
def retarget (entry : String × ConditionTree) : ConditionTree :=
  if entry.1 = mapping.key then .leaf mapping.starredValue else entry.2

theorem ofFields_around (front back : Json.Fields) (key value : String) :
    ConditionTree.ofFields (front ++ (key, .str value) :: back)
      = ConditionTree.ofFields front ++ (key, .leaf value) :: ConditionTree.ofFields back := by
  simp only [ConditionTree.ofFields_eq_map, List.map_append, List.map_cons, ConditionTree.ofJson]

theorem ofFields_starred :
    ConditionTree.ofFields mapping.starred
      = (ConditionTree.ofFields mapping.fields).map fun entry =>
          (mapping.rekey entry.1, mapping.retarget entry) := by
  have hothers : ∀ others : Json.Fields, mapping.key ∉ Assoc.keys others →
      (ConditionTree.ofFields others).map (fun entry =>
        (mapping.rekey entry.1, mapping.retarget entry)) = ConditionTree.ofFields others := by
    intro others hkey
    refine (List.map_congr_left fun entry hentry => ?_).trans (List.map_id _)
    have hne : entry.1 ≠ mapping.key := by
      intro heq
      rw [← ConditionTree.keys_ofFields, ← heq] at hkey
      exact hkey (List.mem_map_of_mem hentry)
    rw [rekey, retarget, if_neg hne, if_neg hne]
    rfl
  obtain ⟨hfront, hback⟩ := not_or.mp (List.mem_append.not.mp mapping.distinct)
  rw [starred, fields, ofFields_around, ofFields_around, List.map_append, List.map_cons,
    hothers _ hfront, hothers _ hback, rekey, retarget, if_pos rfl, if_pos rfl]

theorem tree_of_mem {entry : String × ConditionTree}
    (h : entry ∈ ConditionTree.ofFields mapping.fields) (hkey : entry.1 = mapping.key) :
    entry = (mapping.key, .leaf mapping.value) := by
  rw [fields, ofFields_around, List.mem_append, List.mem_cons] at h
  have hother : ∀ others : Json.Fields, mapping.key ∉ Assoc.keys others →
      entry ∉ ConditionTree.ofFields others := by
    intro others hnot hmem
    rw [← ConditionTree.keys_ofFields, ← hkey] at hnot
    exact hnot (List.mem_map_of_mem hmem)
  obtain ⟨hfront, hback⟩ := not_or.mp (List.mem_append.not.mp mapping.distinct)
  rcases h with h | h | h
  · exact absurd h (hother _ hfront)
  · exact h
  · exact absurd h (hother _ hback)

/-- The order of the keys is judged alike. -/
theorem orderFindings_starred (field : EntryField) (location : Location) :
    Crawl.orderFindings field location (ConditionTree.ofFields mapping.starred)
      = Crawl.orderFindings field location (ConditionTree.ofFields mapping.fields) := by
  rw [ofFields_starred]
  refine Crawl.orderFindings_map (fun kept hkept => mapping.rekey_eq_iff ?_) ?_ ?_
  · have hall : ∀ kept ∈ Crawl.orderedKeys, Text.hasStart kept "./" = false := by decide
    exact hall kept hkept
  · intro entry hentry
    by_cases hkey : entry.1 = mapping.key
    · -- neither a folder nor a pattern is a typed source
      have hplain : ∀ ending ∈ ["/", "*"], ∀ {target : String}, Text.hasEnd target ending = true →
          Source.isTypedSource target = false := by
        intro ending hmem target hend
        have hall : ∀ ending ∈ ["/", "*"], ∀ typed ∈ [".ts", ".tsx"],
            Text.hasEnd typed ending = false ∧ Text.hasEnd ending typed = false := by decide
        obtain ⟨hleft, hright⟩ := hall ending hmem ".ts" (by decide)
        obtain ⟨hleft', hright'⟩ := hall ending hmem ".tsx" (by decide)
        rw [Source.isTypedSource, Text.hasEnd_eq_false hend hleft hright,
          Text.hasEnd_eq_false hend hleft' hright']
        rfl
      have htypes : ∀ {key : String}, Text.hasStart key "./" = true →
          Text.hasStart key "types" = false := fun hstart =>
        Text.hasStart_eq_false hstart (by decide) (by decide)
      rw [mapping.tree_of_mem hentry hkey, rekey, retarget, if_pos rfl, if_pos rfl]
      simp only [Crawl.mayPrecedeTypes, htypes mapping.key_start, htypes mapping.starredKey_start,
        hplain "/" (by decide) mapping.value_slash, starredValue,
        hplain "*" (by decide) (Text.hasEnd_star _)]
    · rw [rekey, retarget, if_neg hkey, if_neg hkey]
  · intro entry hentry
    by_cases hkey : entry.1 = mapping.key
    · rw [mapping.tree_of_mem hentry hkey, retarget, if_pos rfl]
      rfl
    · rw [retarget, if_neg hkey]

/-- The mapping and its pattern hide nothing, so the null keys are the same. -/
theorem nullKeys_starred :
    Subpath.Search.nullKeys (.map (ConditionTree.ofFields mapping.starred))
      = Subpath.Search.nullKeys (.map (ConditionTree.ofFields mapping.fields)) := by
  rw [starred, fields, ofFields_around, ofFields_around]
  simp only [Subpath.Search.nullKeys, List.filterMap_append, List.filterMap_cons]

/-- Other keys lead to the same. -/
theorem get?_starred {other : String} (h : other ≠ mapping.key) (h' : other ≠ mapping.starredKey) :
    Assoc.get? other mapping.starred = Assoc.get? other mapping.fields := by
  rw [starred, fields, Assoc.get?_around h', Assoc.get?_around h]

theorem get?_entries_starred {other : String} (h : other ≠ mapping.key)
    (h' : other ≠ mapping.starredKey) :
    Assoc.get? other (ConditionTree.ofFields mapping.starred)
      = Assoc.get? other (ConditionTree.ofFields mapping.fields) := by
  rw [starred, fields, ofFields_around, ofFields_around, Assoc.get?_around h', Assoc.get?_around h]

theorem get?_starredKey : Assoc.get? mapping.starredKey mapping.fields = none := by
  have hnot : mapping.starredKey ∉ Assoc.keys mapping.fields := by
    intro hmem
    rw [fields, Assoc.keys, List.map_append, List.map_cons, List.mem_append, List.mem_cons] at hmem
    rcases hmem with hmem | heq | hmem
    · exact mapping.unstarred (List.mem_append_left _ hmem)
    · exact mapping.starredKey_ne heq
    · exact mapping.unstarred (List.mem_append_right _ hmem)
  rw [← Assoc.hasKey_iff_mem, Assoc.hasKey, Option.isSome_iff_ne_none, not_not] at hnot
  exact hnot

theorem ne_of_mem {key : String} (h : key ∈ Assoc.keys mapping.front ++ Assoc.keys mapping.back) :
    key ≠ mapping.key ∧ key ≠ mapping.starredKey := by
  constructor
  · rintro rfl
    exact mapping.distinct h
  · rintro rfl
    exact mapping.unstarred h

/-- The entries before and after the mapping, whose keys are others and which are distinct as those of
a whole map are. -/
theorem others_distinct
    (hd : (ConditionTree.map (ConditionTree.ofFields mapping.fields)).DistinctKeys)
    {others : Json.Fields} (h : others = mapping.front ∨ others = mapping.back) :
    (∀ key ∈ Assoc.keys (ConditionTree.ofFields others),
        key ≠ mapping.key ∧ key ≠ mapping.starredKey)
      ∧ (Assoc.keys (ConditionTree.ofFields others)).Nodup
      ∧ ConditionTree.EntriesDistinct (ConditionTree.ofFields others) := by
  have hsub : (ConditionTree.ofFields others).Sublist (ConditionTree.ofFields mapping.fields) := by
    rw [fields, ofFields_around]
    rcases h with rfl | rfl
    · exact List.sublist_append_left _ _
    · exact (List.sublist_cons_self _ _).trans (List.sublist_append_right _ _)
  refine ⟨fun key hkey => mapping.ne_of_mem ?_, hd.1.sublist (hsub.map Prod.fst), ?_⟩
  · rw [ConditionTree.keys_ofFields] at hkey
    rcases h with rfl | rfl
    · exact List.mem_append_left _ hkey
    · exact List.mem_append_right _ hkey
  · exact ConditionTree.entriesDistinct_iff.mpr fun entry hentry =>
      ConditionTree.entriesDistinct_iff.mp hd.2 entry (hsub.mem hentry)

/-! ### Places -/

variable (location : Location)

theorem move_key (rest : List String) :
    mapping.move location (location ++ mapping.key :: rest)
      = location ++ mapping.starredKey :: rest := Location.rename_self rest

theorem move_other {key : String} (h : key ≠ mapping.key) (rest : List String) :
    mapping.move location (location ++ key :: rest) = location ++ key :: rest :=
  Location.rename_of_ne h rest

theorem move_location : mapping.move location location = location := Location.rename_front

/-- The pattern for another key has another key than the mapping and its pattern. -/
theorem starred_ne {key : String} (h : key ≠ mapping.key) (h' : key ≠ mapping.starredKey) :
    (if Text.hasEnd key "/" then key ++ "*" else key) ≠ mapping.key
      ∧ (if Text.hasEnd key "/" then key ++ "*" else key) ≠ mapping.starredKey := by
  split
  · constructor
    · intro heq
      have hslash := Text.hasEnd_star_slash key
      rw [heq, mapping.key_slash] at hslash
      exact absurd hslash (by decide)
    · intro heq
      refine h (String.ext ?_)
      have hlist := congrArg String.toList heq
      rw [starredKey, String.toList_append, String.toList_append] at hlist
      exact List.append_cancel_right hlist
  · exact ⟨h, h'⟩

end FolderMapping

/-! ### Manifests -/

namespace Manifest

variable {manifest manifest' : Manifest} {mapping : FolderMapping}
  (hmanifest : manifest' = manifest.republish "exports" (.obj mapping.starred))
  (hvalue : (manifest.published "exports").1 = .obj mapping.fields)

include hmanifest

/-- The entries with the pattern are published where those with the mapping are. -/
theorem published_starred :
    manifest'.published "exports" = (.obj mapping.starred, (manifest.published "exports").2) := by
  rw [hmanifest]
  refine published_republish_self (by decide) fun _ => ?_
  rw [FolderMapping.starred, Json.truthy, List.isEmpty_eq_false_iff.mpr (by simp)]
  rfl

/-- The rest of the manifest stays. -/
theorem sameFields_starred :
    SameFields (mapping.move (manifest.published "exports").2) manifest manifest' := by
  rw [hmanifest]
  exact sameFields_republish (fun p hp => Location.rename_of_not_prefix hp) (by decide)

theorem sameImports_starred :
    SameField (mapping.move (manifest.published "exports").2) manifest manifest' "imports" := by
  rw [hmanifest]
  exact sameField_republish (fun p hp => Location.rename_of_not_prefix hp) (by decide) (by decide)
    (by decide)

include hvalue

/-- Below another key both manifests have the same. -/
theorem sameStar_starred {key : String} (h : key ≠ mapping.key) (h' : key ≠ mapping.starredKey)
    (rest : List String) :
    Mirror.SameStar (mapping.move (manifest.published "exports").2) manifest manifest'
      ((manifest.published "exports").2 ++ key :: rest) := by
  have hpublished := published_starred hmanifest
  have hlocation : (manifest'.published "exports").2 = (manifest.published "exports").2 := by
    rw [hpublished]
  obtain ⟨hne, hne'⟩ := mapping.starred_ne h h'
  have hstarred : EntryTree.starredLocation ((manifest.published "exports").2 ++ key :: rest)
      = (manifest.published "exports").2
        ++ (if Text.hasEnd key "/" then key ++ "*" else key) :: EntryTree.starredLocation rest :=
    manifest.starredLocation_published (by decide) _
  constructor
  · rw [mapping.move_other _ h, hstarred, mapping.move_other _ hne]
  · rw [mapping.move_other _ h, hstarred, follow_published, hvalue, ← hlocation, follow_published,
      hpublished, Json.follow, Json.follow, Json.field, Json.field, mapping.get?_starred hne hne']

end Manifest

/-! ### Root entries -/

/-- An entry that no condition asks for does not matter. -/
theorem ConditionTree.resolveEntries_around {conditions : List String} {key : String}
    (hdefault : key ≠ "default") (hkey : key ∉ conditions) (location : Location)
    (front back : List (String × ConditionTree)) (tree : ConditionTree) :
    resolveEntries conditions location (front ++ (key, tree) :: back)
      = resolveEntries conditions location (front ++ back) := by
  induction front with
  | nil =>
    rw [List.nil_append, List.nil_append, resolveEntries, if_neg hdefault, if_neg (by simpa using hkey)]
  | cons entry rest ih =>
    obtain ⟨other, otherTree⟩ := entry
    rw [List.cons_append, List.cons_append, resolveEntries, resolveEntries, ih]

namespace Declarations

/-- A declaration is expected below the same key as it is now, or below its condition. -/
theorem expectedLocation_cons (key : String) (rest : Location) (condition : String) :
    ∃ key' rest', expectedLocation (key :: rest) condition = key' :: rest'
      ∧ (key' = key ∨ key' = condition) := by
  rw [expectedLocation]
  split
  · exact ⟨key, rest, rfl, Or.inl rfl⟩
  · split
    · cases rest with
      | nil => exact ⟨condition, _, rfl, Or.inr rfl⟩
      | cons next others => exact ⟨key, _, rfl, Or.inl rfl⟩
    · exact ⟨key, _, rfl, Or.inl rfl⟩

theorem root?_of_conditions {entries : List (String × ConditionTree)} (hne : entries ≠ [])
    (h : ConditionTree.startsSubpaths entries = false) (location : Location) :
    root? (.map entries) location = some { tree := .map entries, location } := by
  cases entries with
  | nil => exact absurd rfl hne
  | cons entry rest =>
    have hfirst : ¬ Text.hasStart entry.1 "." = true := by
      simpa [ConditionTree.startsSubpaths] using h
    rw [root?, if_neg hfirst]

end Declarations

namespace FolderMapping

variable (mapping : FolderMapping)

theorem startsSubpaths_starred :
    ConditionTree.startsSubpaths (ConditionTree.ofFields mapping.starred)
      = ConditionTree.startsSubpaths (ConditionTree.ofFields mapping.fields) := by
  rw [starred, fields, ofFields_around, ofFields_around]
  cases mapping.front with
  | nil =>
    have hdot : Text.hasStart "./" "." = true := by decide
    change Text.hasStart mapping.starredKey "." = Text.hasStart mapping.key "."
    rw [Text.hasStart_trans mapping.starredKey_start hdot, Text.hasStart_trans mapping.key_start hdot]
  | cons entry rest => rfl

/-- The conditions under which root entries are resolved are neither of the two keys. -/
theorem ne_condition {condition : String}
    (h : condition ∈ "default" :: Declarations.knownConditions) :
    mapping.key ≠ condition ∧ mapping.starredKey ≠ condition := by
  have hall : ∀ condition ∈ "default" :: Declarations.knownConditions,
      Text.hasStart condition "./" = false := by decide
  exact mapping.ne_of_start (hall condition h)

/-- Under known conditions the entries resolve as the others do on their own. -/
theorem resolve_starred {conditions : List String} (h : conditions ⊆ Declarations.knownConditions)
    (location : Location) :
    ConditionTree.resolveEntries conditions location (ConditionTree.ofFields mapping.fields)
        = ConditionTree.resolveEntries conditions location
            (ConditionTree.ofFields mapping.front ++ ConditionTree.ofFields mapping.back)
      ∧ ConditionTree.resolveEntries conditions location (ConditionTree.ofFields mapping.starred)
        = ConditionTree.resolveEntries conditions location
            (ConditionTree.ofFields mapping.front ++ ConditionTree.ofFields mapping.back) := by
  obtain ⟨hdefault, hdefault'⟩ := mapping.ne_condition List.mem_cons_self
  have hkey : mapping.key ∉ conditions := fun hmem =>
    (mapping.ne_condition (List.mem_cons_of_mem _ (h hmem))).1 rfl
  have hkey' : mapping.starredKey ∉ conditions := fun hmem =>
    (mapping.ne_condition (List.mem_cons_of_mem _ (h hmem))).2 rfl
  rw [fields, starred, ofFields_around, ofFields_around]
  exact ⟨ConditionTree.resolveEntries_around hdefault hkey _ _ _ _,
    ConditionTree.resolveEntries_around hdefault' hkey' _ _ _ _⟩

variable {location : Location}

/-- Root entries resolve alike when what they yield is below other keys than that of the mapping. -/
theorem sameRoot_starred (hplain : ∀ key ∈ Declarations.knownConditions, key ∉ location)
    {root root' : Declarations.Root}
    (hresolve : ∀ conditions, conditions ⊆ Declarations.knownConditions →
      root'.resolve conditions = root.resolve conditions)
    (hother : ∀ conditions, conditions ⊆ Declarations.knownConditions → ∀ found,
      root.resolve conditions = some found →
        ∃ key rest, found.location = location ++ key :: rest ∧ key ≠ mapping.key) :
    Declarations.SameRoot (mapping.move location) root root' := by
  refine Declarations.sameRoot_of_fixed hresolve ?_ ?_
  · intro conditions hconditions found hfound
    obtain ⟨key, rest, hlocation, hne⟩ := hother conditions hconditions found hfound
    rw [hlocation, mapping.move_other _ hne]
  · intro conditions hconditions found hfound condition
    obtain ⟨key, rest, hlocation, hne⟩ := hother conditions hconditions found hfound
    have hknown : condition.key ∈ Declarations.knownConditions := by cases condition <;> decide
    obtain ⟨key', rest', hexpected, hkey'⟩ := Declarations.expectedLocation_cons key rest condition.key
    have hne' : key' ≠ mapping.key := by
      rcases hkey' with rfl | rfl
      · exact hne
      · exact (mapping.ne_condition (List.mem_cons_of_mem _ hknown)).1.symm
    rw [hlocation, Declarations.expectedLocation_append (hplain _ hknown) (hplain _ (by decide)),
      hexpected, mapping.move_other _ hne']

theorem sameRoots_starred (hplain : ∀ key ∈ Declarations.knownConditions, key ∉ location)
    (hd : (ConditionTree.map (ConditionTree.ofFields mapping.fields)).DistinctKeys) :
    Option.Rel (Declarations.SameRoot (mapping.move location))
      (Declarations.root? (.map (ConditionTree.ofFields mapping.fields)) location)
      (Declarations.root? (.map (ConditionTree.ofFields mapping.starred)) location) := by
  have hstarts := mapping.startsSubpaths_starred
  have hdot : Text.hasStart "." "./" = false := by decide
  obtain ⟨hne, hne'⟩ := mapping.ne_of_start hdot
  cases hfirst : ConditionTree.startsSubpaths (ConditionTree.ofFields mapping.fields) with
  | true =>
    rw [hfirst] at hstarts
    rw [Declarations.root?_of_startsSubpaths hfirst, Declarations.root?_of_startsSubpaths hstarts,
      mapping.get?_entries_starred hne.symm hne'.symm]
    cases hget : Assoc.get? "." (ConditionTree.ofFields mapping.fields) with
    | none => exact .none
    | some tree =>
      refine .some (mapping.sameRoot_starred hplain (fun _ _ => rfl) ?_)
      intro conditions _ found hfound
      have htree := ConditionTree.entriesDistinct_iff.mp hd.2 _ (Assoc.mem_of_get? hget)
      obtain ⟨place, hplace, -⟩ := ConditionTree.at?_of_resolve htree hfound
      exact ⟨".", place, by rw [hplace, List.append_assoc]; rfl, hne.symm⟩
  | false =>
    rw [hfirst] at hstarts
    rw [Declarations.root?_of_conditions (by simp [fields, ofFields_around]) hfirst,
      Declarations.root?_of_conditions (by simp [starred, ofFields_around]) hstarts]
    refine .some (mapping.sameRoot_starred hplain ?_ ?_)
    · intro conditions hconditions
      obtain ⟨hleft, hright⟩ := mapping.resolve_starred hconditions location
      exact hright.trans hleft.symm
    · intro conditions hconditions found hfound
      have hothers := (mapping.resolve_starred hconditions location).1.symm.trans hfound
      have hdistinct : ConditionTree.EntriesDistinct
          (ConditionTree.ofFields mapping.front ++ ConditionTree.ofFields mapping.back) := by
        refine ConditionTree.entriesDistinct_iff.mpr fun entry hentry => ?_
        refine ConditionTree.entriesDistinct_iff.mp hd.2 entry ?_
        rw [fields, ofFields_around]
        exact List.mem_append.mpr ((List.mem_append.mp hentry).imp_right (List.mem_cons_of_mem _))
      obtain ⟨key, tree, hmem, place, hplace, -⟩ :=
        ConditionTree.at?_of_resolveEntries hdistinct hothers
      refine ⟨key, place, hplace, ?_⟩
      rintro rfl
      refine mapping.distinct ?_
      rw [← ConditionTree.keys_ofFields mapping.front, ← ConditionTree.keys_ofFields mapping.back,
        Assoc.keys, Assoc.keys, ← List.map_append]
      exact List.mem_map_of_mem (f := Prod.fst) hmem

end FolderMapping

/-! ### The plan for the condition tree -/

namespace Crawl

variable {front back : List (String × ConditionTree)} {key target : String} (hkey : key ≠ "node")
  (location : Location)

include hkey

/-- What a crawl comes upon in a map with a leaf among its entries. -/
theorem visits_around :
    visits .exports location false (.map (front ++ (key, .leaf target) :: back))
      = (orderFindings .exports location (front ++ (key, .leaf target) :: back)).map .finding
        ++ (entryVisits .exports location false front
          ++ .target
              { value := target, location := location ++ [key]
                afterNode := (Assoc.keys front).contains "node" }
            :: entryVisits .exports location ((Assoc.keys front).contains "node") back) := by
  have hflag : ((Assoc.keys front).contains "node" || decide (key = "node"))
      = (Assoc.keys front).contains "node" := by simp [hkey]
  rw [visits, entryVisits_append, Bool.false_or, entryVisits, hflag, visits]
  rfl

theorem findings_around :
    findings .exports location (.map (front ++ (key, .leaf target) :: back))
      = orderFindings .exports location (front ++ (key, .leaf target) :: back)
        ++ ((entryVisits .exports location false front).filterMap Visit.finding?
          ++ (entryVisits .exports location ((Assoc.keys front).contains "node") back).filterMap
              Visit.finding?) := by
  rw [findings, visits_around hkey, List.filterMap_append, List.filterMap_append,
    filterMap_finding?]
  rfl

theorem targets_around :
    targets .exports location (.map (front ++ (key, .leaf target) :: back))
      = leaves (entryVisits .exports location false front)
        ++ { value := target, location := location ++ [key]
             afterNode := (Assoc.keys front).contains "node" }
          :: leaves (entryVisits .exports location ((Assoc.keys front).contains "node") back) := by
  change leaves (visits .exports location false _) = _
  rw [visits_around hkey, leaves_append, leaves_findings, List.nil_append, leaves_append,
    leaves_target]

end Crawl

namespace FolderMapping

/-- The condition trees at a place with the mapping and with the pattern instead. -/
structure Trees (mapping : FolderMapping) (place : Location) (entry entry' : EntryTree) : Prop where
  tree : entry.tree = .map (ConditionTree.ofFields mapping.fields)
  tree' : entry'.tree = .map (ConditionTree.ofFields mapping.starred)
  field : entry.field = .exports
  field' : entry'.field = .exports
  location : entry.location = place
  location' : entry'.location = place
  browser : entry'.browser = entry.browser
  browserLocation : ∀ value,
    mapping.move place (entry.browserLocation ++ [value]) = entry'.browserLocation ++ [value]

namespace Trees

variable {mapping : FolderMapping} {place : Location} {entry entry' : EntryTree}
  (ht : mapping.Trees place entry entry')

include ht

/-- A place below another key says the same. -/
theorem samePlace {key : String} (h : key ≠ mapping.key) (rest : List String) :
    EntryTree.SamePlace (mapping.move place) entry entry' (place ++ key :: rest) := by
  have hmove := mapping.move_other place h rest
  refine ⟨⟨ht.field'.trans ht.field.symm, fun _ _ => by rw [hmove], ht.browser,
    fun _ => ht.browserLocation⟩, ?_⟩
  intro ctx ctx' value capture
  have hkey : entry'.entryKey (mapping.move place (place ++ key :: rest))
      = entry.entryKey (place ++ key :: rest) := by
    rw [EntryTree.entryKey, EntryTree.entryKey, hmove, ht.location, ht.location']
  exact (congrFun (Subpath.Search.hides_congr hkey (congrArg some ht.tree) (congrArg some ht.tree')
    fun _ => by rw [mapping.nullKeys_starred]) capture).symm

/-- The target of the pattern is used as that of the mapping is. -/
theorem sameUse :
    EntryTree.SameUse (mapping.move place) entry entry' (place ++ [mapping.key]) where
  field := ht.field'.trans ht.field.symm
  contains key hkey := by
    have hall : ∀ key ∈ EntryTree.telling, Text.hasStart key "./" = false := by decide
    obtain ⟨hne, hne'⟩ := mapping.ne_of_start (hall key hkey)
    rw [mapping.move_key, Bool.eq_iff_iff, List.contains_iff_mem, List.contains_iff_mem,
      List.mem_append, List.mem_append, List.mem_singleton, List.mem_singleton]
    exact or_congr_right (iff_of_false hne'.symm hne.symm)
  browser := ht.browser
  browserLocation _ := ht.browserLocation

end Trees

/-- The leaf of the mapping. -/
def target (mapping : FolderMapping) (place : Location) (afterNode : Bool) : Crawl.Target :=
  { value := mapping.value, location := place ++ [mapping.key], afterNode }

/-- The leaf of the pattern that replaces the mapping. -/
def starredTarget (mapping : FolderMapping) (place : Location) (afterNode : Bool) : Crawl.Target :=
  { value := mapping.starredValue, location := place ++ [mapping.starredKey], afterNode }

/-- Whether the mapping comes after a `node` key. -/
def afterNode (mapping : FolderMapping) : Bool :=
  (Assoc.keys (ConditionTree.ofFields mapping.front)).contains "node"

/-- The leaves of the entries before the mapping. -/
def leavesBefore (mapping : FolderMapping) (place : Location) : List Crawl.Target :=
  Crawl.leaves (Crawl.entryVisits .exports place false (ConditionTree.ofFields mapping.front))

/-- The leaves of the entries after the mapping. -/
def leavesAfter (mapping : FolderMapping) (place : Location) : List Crawl.Target :=
  Crawl.leaves
    (Crawl.entryVisits .exports place mapping.afterNode (ConditionTree.ofFields mapping.back))

namespace Trees

variable {mapping : FolderMapping} {place : Location} {entry entry' : EntryTree}
  (ht : mapping.Trees place entry entry')

include ht

/-- The searches of the two leaves are those on behalf of the two keys. -/
theorem finds_eq (ctx : Context) :
    (entry.search ctx mapping.starredValue (place ++ [mapping.key])).finds
        = (mapping.search ctx.pkgDir mapping.key).finds
      ∧ (entry'.search ctx mapping.starredValue (place ++ [mapping.starredKey])).finds
        = (mapping.search ctx.pkgDir mapping.starredKey).finds := by
  have hpattern : EntryTree.targetPath ctx mapping.starredValue
      = Path.join ctx.pkgDir mapping.starredValue := by
    rw [EntryTree.targetPath, if_pos (Path.looksRelative_of_hasStart mapping.starredValue_start)]
    rfl
  have hkey : ∀ (entry : EntryTree) (key : String), entry.location = place →
      entry.entryKey (place ++ [key]) = some key := by
    intro entry key hlocation
    rw [EntryTree.entryKey, hlocation, List.getElem?_append_right le_rfl, Nat.sub_self]
    rfl
  constructor
  · exact Subpath.Search.finds_congr hpattern (Subpath.Search.hides_congr (hkey _ _ ht.location)
      rfl (congrArg some ht.tree) fun _ => Iff.rfl)
  · exact Subpath.Search.finds_congr hpattern (Subpath.Search.hides_congr (hkey _ _ ht.location')
      rfl (congrArg some ht.tree') fun _ => by rw [mapping.nullKeys_starred])

theorem targets_eq : Crawl.targets entry.field entry.location entry.tree
    = mapping.leavesBefore place
      ++ mapping.target place mapping.afterNode :: mapping.leavesAfter place := by
  rw [ht.field, ht.location, ht.tree, fields, ofFields_around,
    Crawl.targets_around (mapping.ne_of_start (by decide)).1]
  rfl

theorem targets_eq' : Crawl.targets entry'.field entry'.location entry'.tree
    = mapping.leavesBefore place
      ++ mapping.starredTarget place mapping.afterNode :: mapping.leavesAfter place := by
  rw [ht.field', ht.location', ht.tree', starred, ofFields_around,
    Crawl.targets_around (mapping.ne_of_start (by decide)).2]
  rfl

end Trees

end FolderMapping

namespace Mirror

variable {tree tree' : FileTree} {ctx ctx' : Context} (h : Mirror tree tree' ctx ctx')
  {mapping : FolderMapping} {place : Location} {entry entry' : EntryTree}
  (htrees : mapping.Trees place entry entry')
  (hvalue : ctx.manifest.published "exports" = (.obj mapping.fields, place))

include htrees hvalue

omit h in
/-- A mapping is reported and then read as its pattern. -/
theorem starFolder_mapping (afterNode : Bool) :
    entry.starFolder ctx (mapping.target place afterNode)
      = .report (mapping.deprecated place) (.done mapping.starredValue) := by
  have hplace : (ctx.manifest.published "exports").2 = place := congrArg Prod.snd hvalue
  have hstarred : EntryTree.starredLocation (mapping.target place afterNode).location
      = place ++ [mapping.starredKey] := by
    rw [FolderMapping.target, ← hplace, ctx.manifest.starredLocation_published (by decide),
      EntryTree.starredLocation, List.map_singleton, if_pos mapping.key_slash,
      FolderMapping.starredKey]
  have hfollow : (Json.obj ctx.manifest).follow (place ++ [mapping.starredKey]) = .ok .null := by
    rw [← hplace, Manifest.follow_published, hvalue, Json.follow, Json.field,
      mapping.get?_starredKey]
    rfl
  have hfinding : entry.folderMapping (mapping.target place afterNode) .null
      = mapping.deprecated place := by
    rw [EntryTree.folderMapping, hstarred, htrees.field]
    rfl
  rw [EntryTree.starFolder, FolderMapping.target, if_pos mapping.value_slash]
  change (Check.ofExcept ((Json.obj ctx.manifest).follow
      (EntryTree.starredLocation (mapping.target place afterNode).location))).bind _ = _
  rw [hstarred, hfollow, Check.ofExcept, Check.done_bind]
  change Check.report (entry.folderMapping (mapping.target place afterNode) .null) _ = _
  rw [hfinding]
  rfl

include h

omit h in
/-- The check of a mapping reports it and goes on with its pattern. -/
theorem checkTarget_mapping (afterNode : Bool) :
    entry.checkTarget ctx (mapping.target place afterNode)
      = .report (mapping.deprecated place)
          (entry.afterStar ctx (mapping.target place afterNode) mapping.starredValue) := by
  have hcrawled : ¬ (decide (entry.field = .imports)
      && !Text.hasStart (mapping.target place afterNode).value ".") = true := by simp [htrees.field]
  rw [EntryTree.checkTarget_eq, if_neg hcrawled, starFolder_mapping htrees hvalue]
  rfl

omit h hvalue in
theorem checkTarget_starred (afterNode : Bool) :
    entry'.checkTarget ctx' (mapping.starredTarget place afterNode)
      = entry'.afterStar ctx' (mapping.starredTarget place afterNode) mapping.starredValue := by
  have hcrawled : ¬ (decide (entry'.field = .imports)
      && !Text.hasStart (mapping.starredTarget place afterNode).value ".") = true := by
    simp [htrees.field']
  have hstarred : ¬ Text.hasEnd (mapping.starredTarget place afterNode).value "/" = true := by
    change ¬ Text.hasEnd (mapping.value ++ "*") "/" = true
    simp [Text.hasEnd_star_slash]
  rw [EntryTree.checkTarget_eq, if_neg hcrawled, EntryTree.starFolder, if_neg hstarred]
  rfl

omit h in
/-- The mapping is reported. -/
theorem deprecated_mem_reported : mapping.deprecated place ∈ (entry.plan ctx).reported tree := by
  have htarget : mapping.target place mapping.afterNode
      ∈ Crawl.targets entry.field entry.location entry.tree := by
    rw [htrees.targets_eq]
    exact List.mem_append_right _ List.mem_cons_self
  refine List.mem_append_right _ (List.mem_flatMap.mpr ⟨_, List.mem_map_of_mem htarget, ?_⟩)
  rw [EntryTree.task, checkTarget_mapping htrees hvalue]
  exact List.mem_cons_self

/-- The task of the mapping reports the mapping, and besides what the task of the pattern does. -/
theorem findings_mapping (afterNode : Bool)
    (hfiles : h.FilesAlike mapping.starredValue
      (entry.files tree ctx mapping.starredValue (place ++ [mapping.key]))
      (entry'.files tree' ctx' mapping.starredValue (place ++ [mapping.starredKey]))) :
    ∃ rest, (entry.task ctx (mapping.target place afterNode)).findings tree
        = mapping.deprecated place :: rest
      ∧ (entry'.task ctx' (mapping.starredTarget place afterNode)).findings tree'
        = rest.map (move (mapping.move place)) := by
  have hplace : (mapping.starredTarget place afterNode).location
      = mapping.move place (mapping.target place afterNode).location :=
    (mapping.move_key place []).symm
  have hagree := h.agree_afterStar htrees.sameUse hplace rfl hfiles
  let task : Task :=
    { label := (mapping.target place afterNode).location.label
      check := entry.afterStar ctx (mapping.target place afterNode) mapping.starredValue }
  refine ⟨task.findings tree, ?_, ?_⟩
  · rw [EntryTree.task, checkTarget_mapping htrees hvalue]
    rfl
  · rw [EntryTree.task, checkTarget_starred htrees]
    exact Task.agree_of_checks hagree

variable (hmanifest : ctx'.manifest = ctx.manifest.republish "exports" (.obj mapping.starred))
  (haims : ∀ v, h.Aims v)

include hmanifest haims

/-- The task of a leaf below another key is the same. -/
theorem agree_otherTask {t : Crawl.Target} {key : String} {rest : Location}
    (hlocation : t.location = place ++ key :: rest) (hne : key ≠ mapping.key)
    (hne' : key ≠ mapping.starredKey) :
    (entry.task ctx t).Agree (move (mapping.move place)) tree tree' (entry'.task ctx' t) := by
  have hplace : (ctx.manifest.published "exports").2 = place := congrArg Prod.snd hvalue
  have hsame := htrees.samePlace hne rest
  have hstar := Manifest.sameStar_starred hmanifest (congrArg Prod.fst hvalue) hne hne' rest
  rw [hplace, ← hlocation] at hstar
  rw [← hlocation] at hsame
  refine h.agree_task hsame ?_ rfl rfl hstar fun _ => haims _
  rw [hlocation, mapping.move_other _ hne]

/-- The tasks of the leaves among other entries are the same. -/
theorem findings_others {others : List (String × ConditionTree)} {afterNode : Bool}
    (hothers : ∀ key ∈ Assoc.keys others, key ≠ mapping.key ∧ key ≠ mapping.starredKey)
    (hk : (Assoc.keys others).Nodup) (hd : ConditionTree.EntriesDistinct others) :
    ((Crawl.leaves (Crawl.entryVisits .exports place afterNode others)).flatMap fun t =>
        (entry'.task ctx' t).findings tree')
      = ((Crawl.leaves (Crawl.entryVisits .exports place afterNode others)).flatMap fun t =>
          (entry.task ctx t).findings tree).map (move (mapping.move place)) := by
  rw [List.map_flatMap]
  refine List.flatMap_congr fun t ht => ?_
  obtain ⟨key, leaf, hmem, rest, hlocation, -⟩ := (Crawl.mem_entryVisits place afterNode hk hd).mp ht
  obtain ⟨hne, hne'⟩ := hothers key (List.mem_map_of_mem (f := Prod.fst) hmem)
  rw [List.append_assoc] at hlocation
  exact h.agree_otherTask htrees hvalue hmanifest haims hlocation hne hne'

omit h hvalue hmanifest haims in
/-- What the trees alone show is the same. -/
theorem findings_starred (hd : entry.tree.DistinctKeys) :
    (Crawl.findings entry.field entry.location entry.tree).map (move (mapping.move place))
      = Crawl.findings entry'.field entry'.location entry'.tree := by
  obtain ⟨hkey, hkey'⟩ := mapping.ne_of_start (show Text.hasStart "node" "./" = false by decide)
  rw [htrees.tree] at hd
  have horder : (Crawl.orderFindings .exports place (ConditionTree.ofFields mapping.fields)).map
        (move (mapping.move place))
      = Crawl.orderFindings .exports place (ConditionTree.ofFields mapping.starred) := by
    have hall : ∀ key ∈ Crawl.orderedKeys, Text.hasStart key "./" = false := by decide
    rw [mapping.orderFindings_starred]
    exact Crawl.map_move_orderFindings (fun key hmem =>
      mapping.move_other place (mapping.ne_of_start (hall key hmem)).1.symm []) _
  have hvisits : ∀ {others : Json.Fields} (afterNode : Bool),
      others = mapping.front ∨ others = mapping.back →
      ((Crawl.entryVisits .exports place afterNode (ConditionTree.ofFields others)).filterMap
          Crawl.Visit.finding?).map (move (mapping.move place))
        = (Crawl.entryVisits .exports place afterNode (ConditionTree.ofFields others)).filterMap
            Crawl.Visit.finding? := by
    intro others afterNode hothers
    obtain ⟨hkeys, -, -⟩ := mapping.others_distinct hd hothers
    rw [← Crawl.filterMap_finding?_move, Crawl.entryVisits_fixed fun key hkey rest =>
      mapping.move_other place (hkeys key hkey).1 rest]
  rw [FolderMapping.fields, FolderMapping.starred, FolderMapping.ofFields_around,
    FolderMapping.ofFields_around] at horder
  rw [htrees.field, htrees.field', htrees.location, htrees.location', htrees.tree, htrees.tree',
    FolderMapping.fields, FolderMapping.starred, FolderMapping.ofFields_around,
    FolderMapping.ofFields_around, Crawl.findings_around hkey, Crawl.findings_around hkey',
    List.map_append, List.map_append, horder, hvisits _ (Or.inl rfl), hvisits _ (Or.inr rfl)]

/-- The plans for the condition trees agree, but for the report on the mapping. -/
theorem agree_starredEntry (hd : entry.tree.DistinctKeys)
    (hfiles : h.FilesAlike mapping.starredValue
      (entry.files tree ctx mapping.starredValue (place ++ [mapping.key]))
      (entry'.files tree' ctx' mapping.starredValue (place ++ [mapping.starredKey]))) :
    (entry.plan ctx).Agree (move (mapping.move place)) tree tree'
      ({ findings := [(mapping.deprecated place).move (mapping.move place)] } ++ entry'.plan ctx') := by
  have hfindings := findings_starred htrees hd
  rw [htrees.tree] at hd
  have hbefore : ((mapping.leavesBefore place).flatMap fun t => (entry'.task ctx' t).findings tree')
      = ((mapping.leavesBefore place).flatMap fun t =>
          (entry.task ctx t).findings tree).map (move (mapping.move place)) := by
    obtain ⟨hkeys, hnodup, hdistinct⟩ := mapping.others_distinct hd (Or.inl rfl)
    exact h.findings_others htrees hvalue hmanifest haims hkeys hnodup hdistinct
  have hafter : ((mapping.leavesAfter place).flatMap fun t => (entry'.task ctx' t).findings tree')
      = ((mapping.leavesAfter place).flatMap fun t =>
          (entry.task ctx t).findings tree).map (move (mapping.move place)) := by
    obtain ⟨hkeys, hnodup, hdistinct⟩ := mapping.others_distinct hd (Or.inr rfl)
    exact h.findings_others htrees hvalue hmanifest haims hkeys hnodup hdistinct
  obtain ⟨rest, hmapping, hpattern⟩ :=
    h.findings_mapping htrees hvalue mapping.afterNode hfiles
  rw [Plan.Agree, Plan.reported_besides, Plan.reported, Plan.reported, List.map_append]
  change ((Crawl.findings entry.field entry.location entry.tree).map _
      ++ (((Crawl.targets entry.field entry.location entry.tree).map (entry.task ctx)).flatMap
        (Task.findings tree)).map _).Perm
    (_ :: (Crawl.findings entry'.field entry'.location entry'.tree
      ++ ((Crawl.targets entry'.field entry'.location entry'.tree).map (entry'.task ctx')).flatMap
        (Task.findings tree')))
  rw [hfindings, htrees.targets_eq, htrees.targets_eq', List.flatMap_map, List.flatMap_map,
    List.flatMap_append, List.flatMap_append, List.flatMap_cons, List.flatMap_cons, hmapping,
    hpattern, hbefore, hafter]
  simp only [List.map_append, List.cons_append, List.map_cons]
  exact (List.perm_middle.append_left _).trans List.perm_middle

end Mirror

/-! ### Whole plans -/

/-- The condition trees of both manifests. -/
theorem Manifest.trees_starred {manifest manifest' : Manifest} {mapping : FolderMapping}
    {place : Location} (hmanifest : manifest' = manifest.republish "exports" (.obj mapping.starred))
    (hvalue : manifest.published "exports" = (.obj mapping.fields, place)) :
    mapping.Trees place (Pass.exportsEntry (Fields.of manifest))
      (Pass.exportsEntry (Fields.of manifest')) := by
  have hplace : (manifest.published "exports").2 = place := congrArg Prod.snd hvalue
  have hvalue' : manifest'.published "exports" = (.obj mapping.starred, place) := by
    rw [published_starred hmanifest, hplace]
  have hbrowser := (sameFields_starred hmanifest).values "browser" (by decide)
  rw [hplace] at hbrowser
  refine ⟨?_, ?_, rfl, rfl, hplace, congrArg Prod.snd hvalue', ?_, fun value => ?_⟩
  · simp only [Pass.exportsEntry, Fields.of, hvalue, ConditionTree.ofJson]
  · simp only [Pass.exportsEntry, Fields.of, hvalue', ConditionTree.ofJson]
  · simp only [Pass.exportsEntry, Fields.of, hbrowser.published]
  · simp only [Pass.exportsEntry, Fields.of, hbrowser.published]
    exact hbrowser.carries [value]

namespace Mirror

variable {tree tree' : FileTree} {ctx ctx' : Context} (h : Mirror tree tree' ctx ctx')
  {mapping : FolderMapping} {place : Location}
  (hvalue : ctx.manifest.published "exports" = (.obj mapping.fields, place))
  (hmanifest : ctx'.manifest = ctx.manifest.republish "exports" (.obj mapping.starred))

include h hvalue hmanifest

/-- Plans agree where the pattern is in place of the mapping, but for the report on the mapping. -/
theorem agree_starredPlan (hd : (Json.obj ctx.manifest).DistinctKeys) (haims : ∀ v, h.Aims v)
    (hfits : ∀ v, h.Fits v)
    (hfiles : h.FilesAlike mapping.starredValue
      ((Pass.exportsEntry (Fields.of ctx.manifest)).files tree ctx mapping.starredValue
        (place ++ [mapping.key]))
      ((Pass.exportsEntry (Fields.of ctx'.manifest)).files tree' ctx' mapping.starredValue
        (place ++ [mapping.starredKey]))) :
    (Pass.plan ctx).Agree (move (mapping.move place)) tree tree'
      ({ findings := [(mapping.deprecated place).move (mapping.move place)] } ++ Pass.plan ctx') := by
  have hplace : (ctx.manifest.published "exports").2 = place := congrArg Prod.snd hvalue
  have hvalue' : ctx'.manifest.published "exports" = (.obj mapping.starred, place) := by
    rw [Manifest.published_starred hmanifest, hplace]
  have hf : Manifest.SameFields (mapping.move place) ctx.manifest ctx'.manifest := by
    rw [← hplace]
    exact Manifest.sameFields_starred hmanifest
  have himports : Manifest.SameField (mapping.move place) ctx.manifest ctx'.manifest "imports" := by
    rw [← hplace]
    exact Manifest.sameImports_starred hmanifest
  have hbrowser := hf.values "browser" (by decide)
  have hset : (Fields.of ctx.manifest).hasExports = true :=
    congrArg (fun field => field.1.isSet) hvalue
  have hset' : (Fields.of ctx'.manifest).hasExports = true :=
    congrArg (fun field => field.1.isSet) hvalue'
  have hnull : (Fields.of ctx'.manifest).exports.1.isNull = (Fields.of ctx.manifest).exports.1.isNull :=
    (congrArg (fun field => field.1.isNull) hvalue').trans
      (congrArg (fun field => field.1.isNull) hvalue).symm
  have htree : ConditionTree.ofJson (ctx.manifest.published "exports").1
      = .map (ConditionTree.ofFields mapping.fields) := by rw [hvalue, ConditionTree.ofJson]
  have htree' : ConditionTree.ofJson (ctx'.manifest.published "exports").1
      = .map (ConditionTree.ofFields mapping.starred) := by rw [hvalue', ConditionTree.ofJson]
  have hdistinct : (ConditionTree.map (ConditionTree.ofFields mapping.fields)).DistinctKeys := by
    rw [← htree]
    exact ConditionTree.distinctKeys_ofJson (Manifest.distinctKeys_published hd "exports")
  have htrees := Manifest.trees_starred hmanifest hvalue
  refine h.agree_plan hf (fun v _ => hfits v) hd (hset'.trans hset.symm) hnull ?_ _ ?_ ?_
  · obtain ⟨hne, hne'⟩ := mapping.ne_of_start (show Text.hasStart "." "./" = false by decide)
    refine agree_missingRoot_of_map hf ?_ htree htree' mapping.startsSubpaths_starred ?_
    · rw [hplace, hvalue', mapping.move_location]
    · rw [Assoc.hasKey, Assoc.hasKey, mapping.get?_entries_starred hne.symm hne'.symm]
  · rw [Pass.exportsPlan, Pass.exportsPlan, if_pos hset, if_pos hset', ← Plan.append_assoc]
    refine Plan.Agree.append ?_ ?_
    · refine h.agree_starredEntry htrees hvalue hmanifest haims ?_ hfiles
      rw [htrees.tree]
      exact hdistinct
    · simp only [Fields.of, hvalue, hvalue', ConditionTree.ofJson]
      refine h.agree_declarations ?_ (fun _ _ _ _ _ => hfits _)
        (h.fits_givenString hf fun v _ => hfits v)
      refine mapping.sameRoots_starred (fun key hkey => ?_) hdistinct
      rw [← hplace]
      exact ctx.manifest.condition_not_mem_published hkey
  · exact h.agree_importsPlan hd himports fun _ v _ _ => haims v

end Mirror

/-! ### Passes -/

namespace FolderMapping

variable {mapping : FolderMapping} {tree tree' : MemoryTree} {pkgDir : String}
  {manifest manifest' : Manifest} (h : Manifest.Rewrites pkgDir tree tree' manifest manifest')

include h

/-- Where null keys hide the same files, the mapping and its pattern lead to the same files. -/
theorem files_starred (hsound : tree.Sound) (hhides : mapping.HidesAlike tree.toFileTree pkgDir)
    (options : Pass.Options) (workDir : String) {place : Location} {entry entry' : EntryTree}
    (htrees : mapping.Trees place entry entry') :
    entry'.files tree'.toFileTree
        (Pass.contextOf tree'.toFileTree.depth workDir pkgDir manifest' options)
        mapping.starredValue (place ++ [mapping.starredKey])
      = entry.files tree.toFileTree
        (Pass.contextOf tree.toFileTree.depth workDir pkgDir manifest options)
        mapping.starredValue (place ++ [mapping.key]) := by
  have hdepth := h.sameBut.depth
  have hfinds : ∀ dir, ∀ name ∈ tree.toFileTree.names dir,
      tree.toFileTree.isDir (Path.join dir name) = false →
        (mapping.search pkgDir mapping.starredKey).finds (Path.join dir name)
          = (mapping.search pkgDir mapping.key).finds (Path.join dir name) :=
    fun dir name hname hdir => hhides _ (hsound.readable_of_listed hname hdir)
  rw [EntryTree.files, EntryTree.files]
  split
  · rw [Pass.contextOf, Pass.contextOf, hdepth]
    refine @MemoryTree.SameBut.expanded _ _ _ h.sameBut (entry.search _ _ _) (entry'.search _ _ _) ?_
      (fun _ => rfl) rfl ?_ _
    · rfl
    intro dir name hname hdir
    rw [(htrees.finds_eq _).1, (htrees.finds_eq _).2]
    exact hfinds dir name hname hdir
  · rfl

end FolderMapping

namespace Pass

/-- What the plan for a set `exports` reports, the whole plan reports. -/
theorem mem_reported_of_exportsEntry {tree : FileTree} {ctx : Context}
    (hset : (Fields.of ctx.manifest).hasExports = true) {d : Diagnostic}
    (h : d ∈ ((exportsEntry (Fields.of ctx.manifest)).plan ctx).reported tree) :
    d ∈ (plan ctx).reported tree := by
  have hexports : d ∈ (exportsPlan ctx (Fields.of ctx.manifest)).reported tree := by
    rw [exportsPlan, if_pos hset]
    exact (Plan.reported_append tree _ _).mem_iff.mpr (List.mem_append_left _ h)
  refine (Plan.reported_concat tree _).mem_iff.mpr (List.mem_flatMap.mpr ⟨_, ?_, hexports⟩)
  simp only [List.mem_cons, true_or, or_true]

/-- A folder mapping of `exports` may be replaced by its pattern: where null keys hide the same files
from both, the pass before reports the mapping, and else the same as the pass after does at the key of
the pattern. -/
theorem diagnostics_starred {tree tree' : MemoryTree} (ht : tree.Reachable) {pkgDir : String}
    {manifest : Manifest} (hload : (Manifest.load pkgDir).result tree.toFileTree = .ok (.ok manifest))
    {mapping : FolderMapping} {place : Location}
    (hvalue : manifest.published "exports" = (.obj mapping.fields, place))
    (hhides : mapping.HidesAlike tree.toFileTree pkgDir) {text : String}
    (hw : tree.write (Manifest.pathIn pkgDir) text = .ok tree')
    (htext : Manifest.ofText? text = some (manifest.republish "exports" (.obj mapping.starred)))
    (options : Options) (workDir : String) :
    ∃ result result' rest, run tree.toFileTree pkgDir options workDir = .ok result
      ∧ run tree'.toFileTree pkgDir options workDir = .ok result'
      ∧ result.diagnostics.Perm (mapping.deprecated place :: rest)
      ∧ (rest.map (move (mapping.move place))).Perm result'.diagnostics := by
  have hd := Manifest.distinctKeys_load hload
  have h := Manifest.rewrites_of_write ht hload hw htext (Manifest.declaresEsm_republish (by decide))
  have htrees := Manifest.trees_starred rfl hvalue
  have hfiles := FolderMapping.files_starred h ht.sound hhides options workDir htrees
  refine h.diagnostics_besides options workDir (Diagnostic.keepsSeverity_move _) rfl ?_ ?_
  · refine mem_reported_of_exportsEntry (congrArg (fun field => field.1.isSet) hvalue) ?_
    exact Mirror.deprecated_mem_reported htrees hvalue
  · exact (h.mirror options workDir).agree_starredPlan hvalue rfl hd (fun _ => trivial)
      (fun _ => trivial) (h.filesAlike_of_eq options workDir hfiles)

/-- A folder that is mapped, beside a null key that hides another folder. -/
theorem diagnostics_starred_folder :
    ∃ (tree tree' : MemoryTree) (result result' : Result) (rest : List Diagnostic),
      MemoryTree.ofFiles
          [("/p/package.json", "\x7b\"exports\":\x7b\"./g/*\":null,\"./f/\":\"./f/\"\x7d\x7d"),
           ("/p/f/a.mjs", "export default 1")] = .ok tree
        ∧ MemoryTree.ofFiles
          [("/p/package.json", "\x7b\"exports\":\x7b\"./g/*\":null,\"./f/*\":\"./f/*\"\x7d\x7d"),
           ("/p/f/a.mjs", "export default 1")] = .ok tree'
        ∧ run tree.toFileTree "/p" = .ok result ∧ run tree'.toFileTree "/p" = .ok result'
        ∧ result.diagnostics.Perm
          ({ code := .entry .exports .globNoDeprecatedSubpathMapping, severity := .error
             location := ["exports", "./f/"]
             args := [("expect_path", .strs ["exports", "./f/*"]), ("expect_value", .str "./f/*")] }
            :: rest)
        ∧ (rest.map (move (Location.rename ["exports"] "./f/" "./f/*"))).Perm
          result'.diagnostics := by
  let mapping : FolderMapping :=
    { front := [("./g/*", .null)], key := "./f/", value := "./f/", back := []
      key_start := by decide, key_slash := by decide, value_start := by decide
      value_slash := by decide, distinct := by decide, unstarred := by decide }
  let manifest : Manifest := [("exports", .obj mapping.fields)]
  let text := "\x7b\"exports\":\x7b\"./g/*\":null,\"./f/\":\"./f/\"\x7d\x7d"
  let text' := "\x7b\"exports\":\x7b\"./g/*\":null,\"./f/*\":\"./f/*\"\x7d\x7d"
  let code := ("/p/f/a.mjs", "export default 1")
  let dirs := [("/", ["p"]), ("/p", ["package.json", "f"]), ("/p/f", ["a.mjs"])]
  let tree : MemoryTree := { files := [("/p/package.json", text), code], dirs }
  let tree' : MemoryTree := { files := [("/p/package.json", text'), code], dirs }
  have htree : MemoryTree.ofFiles [("/p/package.json", text), code] = .ok tree := by cbv
  have htree' : MemoryTree.ofFiles [("/p/package.json", text'), code] = .ok tree' := by cbv
  have hload : (Manifest.load "/p").result tree.toFileTree = .ok (.ok manifest) := by cbv
  have hw : tree.write (Manifest.pathIn "/p") text' = .ok tree' := by rfl
  have htext : Manifest.ofText? text' = some (manifest.republish "exports" (.obj mapping.starred)) := by
    cbv
  have hhides : mapping.HidesAlike tree.toFileTree "/p" := by
    refine FolderMapping.hidesAlike_of_hides (funext fun capture => ?_) _
    simp [FolderMapping.search, FolderMapping.fields, FolderMapping.starredKey, mapping,
      Subpath.Search.hides, Subpath.Search.hidingKeys, Subpath.Search.nullKeys,
      Subpath.Search.substitute, ConditionTree.ofFields, ConditionTree.ofJson, Text.replaceFirst?,
      Text.dropStart?, Text.split, Pattern.accepts, Pattern.match?, Pattern.ofText, Pattern.ofChars]
  obtain ⟨result, result', rest, hrun, hrun', hdiagnostics, hrest⟩ := diagnostics_starred
    (MemoryTree.reachable_ofFiles htree) hload (show manifest.published "exports" = _ by rfl) hhides hw
    htext {} "/"
  exact ⟨tree, tree', result, result', rest, htree, htree', hrun, hrun', hdiagnostics, hrest⟩

end Pass

end PackageLint
