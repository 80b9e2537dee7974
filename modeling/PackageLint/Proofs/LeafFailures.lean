import PackageLint.Proofs.GlobbedTargets
import PackageLint.Proofs.Views

/-!
# The leaves that fail

A task that fails is logged and passed over, and whatever it had still to say is lost. On a tree in
memory the check of a leaf has little to fail on: a file that cannot be read is reported, a directory
is listed only when it is one, and a walk through directories ends by itself, since the tree has only
so many of them. The checks of its files cannot fail either.

One step remains. The leaf of a folder mapping looks up the place where the pattern belongs that
replaces it, and that place need not be built like its own: where it comes upon an array, it goes on
with whatever key the mapping has there. A key that consists of digits passes for an index, but some
digits do not denote a number, such as `²`, and a number may be too long to be read. The look-up then
fails, and with it the whole leaf, before it has said anything.

## Main definitions

* `Json.IsFalseIndex` — the keys that pass for an index and are none
* `Json.Stops` — the places at which a look-up fails
* `Task.Completes` — a task, and all that it leaves to be done, ends without failure
* `EntryTree.Misled` — the leaves that fail

## Main results

* `Json.follow_isOk_iff`, `Json.follow_arr_eq_ok` — what a look-up gives
* `MemoryTree.Reachable.expanded_eq_of_le` — a search ends by itself
* `EntryTree.completes_iff` — the leaves that complete
* `EntryTree.leaf_completes_iff` — all of this for the leaves of a manifest
-/

namespace PackageLint

/-! ### Looking up a place -/

namespace Text

theorem decimalNumberFrom?_isSome {cs : List Char} (acc : Nat) :
    (decimalNumberFrom? acc cs).isSome = true ↔ ∀ c ∈ cs, (decimalValue? c).isSome = true := by
  induction cs generalizing acc with
  | nil => simp [decimalNumberFrom?]
  | cons c rest ih =>
    rw [decimalNumberFrom?, List.forall_mem_cons]
    cases decimalValue? c with
    | none => simp
    | some d => simp [ih]

end Text

namespace Json

/-- A key of digits that passes for an index and is none: one of its digits is no decimal one, or it
is longer than any number that is read. -/
def IsFalseIndex (key : String) : Prop :=
  Text.allDigits key.toList = true
    ∧ ((∃ c ∈ key.toList, Text.decimalValue? c = none) ∨ Numeral.maxDigits < key.toList.length)

/-- Where a place leads within a value: it comes upon an array, and goes on there with a key that
passes for an index and is none. -/
def Stops (value : Json) (place : Location) : Prop :=
  ∃ front key rest items, place = front ++ key :: rest
    ∧ value.follow front = .ok (.arr items) ∧ IsFalseIndex key

variable {key : String} {items : List Json} {rest place : Location}

/-- A key of digits denotes an index, unless it is a false one. -/
theorem indexOfKey_isError_iff (h : Text.allDigits key.toList = true) :
    (∃ e, indexOfKey key = .error e) ↔ IsFalseIndex key := by
  have hempty : key.toList.isEmpty = false := by
    rw [Text.allDigits, Bool.and_eq_true] at h
    simpa using h.1
  have hnumber : Text.decimalNumber? key.toList = none
      ↔ ∃ c ∈ key.toList, Text.decimalValue? c = none := by
    rw [Text.decimalNumber?, hempty, ← Option.not_isSome_iff_eq_none, if_neg (by simp),
      Text.decimalNumberFrom?_isSome]
    simp
  rw [IsFalseIndex, and_iff_right h, ← hnumber, indexOfKey]
  cases hdecimal : Text.decimalNumber? key.toList with
  | none =>
    simp only [true_or, iff_true]
    split
    · exact ⟨_, rfl⟩
    · exact ⟨_, rfl⟩
  | some n =>
    -- all digits are decimal ones, so the run that is measured is the whole key
    have hall : ∀ c ∈ key.toList, (Text.decimalValue? c).isSome = true := by
      intro c hc
      by_contra hno
      have hnone : Text.decimalNumber? key.toList = none :=
        hnumber.mpr ⟨c, hc, Option.not_isSome_iff_eq_none.mp hno⟩
      rw [hdecimal] at hnone
      exact absurd hnone (by simp)
    rw [List.takeWhile_eq_self_iff.mpr hall]
    by_cases hlong : Numeral.maxDigits < key.toList.length <;> simp [hlong]

theorem indexOfKey_eq_ok {n : Nat} (h : indexOfKey key = .ok n) :
    Text.decimalNumber? key.toList = some n := by
  rw [indexOfKey] at h
  split at h
  · simp at h
  · split at h
    · simp at h
    next m hdecimal => rw [hdecimal, Except.ok.inj h]

/-- What a key does in an array: a false index makes the look-up fail, the decimal index of an item
leads on to that item, and any other key leads to nothing. -/
theorem follow_arr_cases (items : List Json) (key : String) :
    (IsFalseIndex key ∧ ∃ e, ∀ rest, (Json.arr items).follow (key :: rest) = .error e)
      ∨ (∀ rest, (Json.arr items).follow (key :: rest) = .ok .null)
      ∨ ∃ n item, Text.decimalNumber? key.toList = some n ∧ items[n]? = some item
          ∧ ∀ rest, (Json.arr items).follow (key :: rest) = item.follow rest := by
  simp only [follow]
  cases hdigits : Text.allDigits key.toList with
  | false => exact Or.inr (Or.inl fun _ => rfl)
  | true =>
    simp only [if_true]
    cases hindex : indexOfKey key with
    | error e => exact Or.inl ⟨(indexOfKey_isError_iff hdigits).mp ⟨e, hindex⟩, e, fun _ => rfl⟩
    | ok n =>
      cases hitem : items[n]? with
      | none => exact Or.inr (Or.inl fun _ => by simp only [hitem])
      | some item =>
        exact Or.inr (Or.inr ⟨n, item, indexOfKey_eq_ok hindex, hitem, fun _ => by simp only [hitem]⟩)

/-- An array is followed by the decimal index of one of its items only. -/
theorem follow_arr_eq_ok {found : Json} (h : (Json.arr items).follow (key :: rest) = .ok found) :
    found = .null
      ∨ ∃ n item, Text.decimalNumber? key.toList = some n ∧ items[n]? = some item
          ∧ item.follow rest = .ok found := by
  rcases follow_arr_cases items key with ⟨-, e, he⟩ | hnull | ⟨n, item, hn, hitem, hstep⟩
  · simp [he] at h
  · exact Or.inl (Except.ok.inj ((hnull rest).symm.trans h)).symm
  · exact Or.inr ⟨n, item, hn, hitem, (hstep rest).symm.trans h⟩

/-- What a place leads through may be left out, when the rest leads to the same. -/
theorem Stops.cons {value next : Json} (h : next.Stops place)
    (hstep : ∀ rest, value.follow (key :: rest) = next.follow rest) :
    value.Stops (key :: place) := by
  obtain ⟨front, last, rest, items, rfl, hfollow, hfalse⟩ := h
  exact ⟨key :: front, last, rest, items, rfl, (hstep front).trans hfollow, hfalse⟩

/-- Where a place stops, the look-up fails. -/
theorem Stops.follow_isError {value : Json} (h : value.Stops place) :
    ∃ e, value.follow place = .error e := by
  obtain ⟨front, key, rest, items, rfl, hfollow, hfalse⟩ := h
  induction front generalizing value with
  | nil =>
    obtain rfl := Except.ok.inj hfollow
    obtain ⟨e, he⟩ := (indexOfKey_isError_iff hfalse.1).mpr hfalse
    exact ⟨e, by simp only [List.nil_append, follow, if_pos hfalse.1, he]⟩
  | cons step front ih =>
    cases value with
    | obj fields => exact ih hfollow
    | arr others =>
      rcases follow_arr_cases others step with ⟨-, e, he⟩ | hnull | ⟨n, item, -, -, hstep⟩
      · exact ⟨e, he _⟩
      · simp [hnull] at hfollow
      · rw [hstep] at hfollow
        rw [List.cons_append, hstep]
        exact ih hfollow
    | null | bool _ | int _ | float _ | str _ => simp [follow] at hfollow

/-- A look-up that fails stops somewhere. -/
theorem stops_of_follow {value : Json} {e : Failure} (h : value.follow place = .error e) :
    value.Stops place := by
  induction place generalizing value with
  | nil => simp [follow] at h
  | cons key rest ih =>
    cases value with
    | obj fields => exact (ih h).cons fun _ => rfl
    | arr items =>
      rcases follow_arr_cases items key with ⟨hfalse, -⟩ | hnull | ⟨n, item, -, -, hstep⟩
      · exact ⟨[], key, rest, items, rfl, rfl, hfalse⟩
      · simp [hnull] at h
      · exact (ih ((hstep rest).symm.trans h)).cons hstep
    | null | bool _ | int _ | float _ | str _ => simp [follow] at h

/-- A look-up gives a value, null where nothing is there, unless it stops. -/
theorem follow_isOk_iff {value : Json} :
    (∃ found, value.follow place = .ok found) ↔ ¬value.Stops place := by
  cases hfollow : value.follow place with
  | ok found =>
    refine ⟨fun _ hstops => ?_, fun _ => ⟨found, rfl⟩⟩
    obtain ⟨e, he⟩ := hstops.follow_isError
    simp [hfollow] at he
  | error e =>
    refine ⟨fun ⟨found, hfound⟩ => ?_, fun hno => absurd (stops_of_follow hfollow) hno⟩
    simp at hfound

end Json

/-! ### Searches -/

namespace MemoryTree

open PackageLint.Path

variable {tree : MemoryTree} {k : Nat} {names : List Segment}

/-- A directory has all directories above it in the tree, so it is less deep than they are many. -/
theorem Reachable.length_lt_dirs (h : tree.Reachable) (hk : IsRoot k) (hnames : Names names)
    (hdir : Assoc.hasKey (ofNames k names) tree.dirs = true) : names.length < tree.dirs.length := by
  refine Nat.lt_of_succ_le (length_le_dirs hk hnames le_rfl fun m hm => ?_)
  by_cases hfull : names.length ≤ m
  · rwa [List.take_of_length_le hfull]
  · have hne : ofNames k names ≠ "/" := by
      rw [Ne, ofNames_eq_root_iff hk hnames]
      rintro ⟨-, rfl⟩
      simp at hfull
    obtain ⟨path, name, hfile, hstep⟩ := h.file_of_dir hdir hne
    obtain ⟨j, segments, hj, hsegments, rfl⟩ := h.sound.file_normal path hfile
    obtain ⟨rfl, ⟨-, rfl, -⟩ | ⟨s, rest, rfl, -⟩⟩ := next_of_lineage hj hsegments hk hnames hstep
    · simp at hfull
    · -- the way to the file goes on from the initial segment with the next name
      have hfront : Names (names.take m) := fun t ht => hnames t (List.take_subset _ _ ht)
      have hnext : nextAfter (names.take m) (names ++ s :: rest) = some names[m] :=
        nextAfter_eq_some.mpr ⟨names.drop (m + 1) ++ s :: rest, by
          rw [← List.cons_append, ← List.append_assoc, List.getElem_cons_drop,
            List.take_append_drop]⟩
      have hget : Assoc.get? (ofNames k (names.take m)) (lineage (ofNames k (names ++ s :: rest)))
          = some (String.ofList names[m]) := by
        rw [get?_lineage hk hsegments (by simp) hk hfront, if_pos rfl, hnext]
        rfl
      obtain ⟨listing, hlisting, -⟩ := h.listed_lineage hfile hget
      exact Assoc.hasKey_iff_get?.mpr ⟨listing, hlisting⟩

variable {search : Subpath.Search} {dir : String}

/-- Where something is listed, there is a directory. -/
theorem Reachable.length_lt_of_mem_names (h : tree.Reachable) (hk : IsRoot k) (hnames : Names names)
    (hdir : normalize dir = ofNames k names) {name : String}
    (hname : name ∈ tree.toFileTree.names dir) : names.length < tree.dirs.length := by
  obtain ⟨listing, hget, -⟩ := listing_of_mem_names hname
  rw [hdir] at hget
  exact h.length_lt_dirs hk hnames (Assoc.hasKey_iff_get?.mpr ⟨listing, hget⟩)

/-- A walk is over before its bound, when the bound is not below the number of directories. -/
theorem Reachable.found_eq_of_le (h : tree.Reachable) (hnamed : tree.Named) (hk : IsRoot k)
    (hnames : Names names) (hdir : normalize dir = ofNames k names) {bound bound' : Nat}
    (hbound : tree.dirs.length ≤ names.length + bound) (hle : bound ≤ bound') :
    tree.toFileTree.found search bound' dir = tree.toFileTree.found search bound dir := by
  induction bound generalizing bound' dir names with
  | zero =>
    cases bound' with
    | zero => rfl
    | succ bound' =>
      -- so deep there is no directory
      rw [found_succ]
      refine List.flatMap_eq_nil_iff.mpr fun name hname => ?_
      have hlt := h.length_lt_of_mem_names hk hnames hdir hname
      omega
  | succ bound ih =>
    obtain ⟨bound', rfl⟩ := Nat.exists_eq_succ_of_ne_zero (Nat.ne_zero_of_lt hle)
    rw [found_succ, found_succ]
    refine List.flatMap_congr fun name hname => ?_
    obtain ⟨s, hs, rfl⟩ := h.isName_of_mem_names hnamed hname
    have hchild : Names (names ++ [s]) := hnames.concat hs
    have hnormal : normalize (join dir (String.ofList s)) = ofNames k (names ++ [s]) := by
      rw [join_name hk hnames hdir hs, normalize_ofNames hk hchild]
    have hsame : tree.toFileTree.found search bound' (join dir (String.ofList s))
        = tree.toFileTree.found search bound (join dir (String.ofList s)) := by
      refine ih hchild hnormal ?_ (Nat.le_of_succ_le_succ hle)
      rw [List.length_append, List.length_singleton]
      omega
    rw [foundUnder, foundUnder, hsame]

/-- A search ends by itself: from the number of directories on, its bound does not matter. -/
theorem Reachable.expanded_eq_of_le (h : tree.Reachable) (hnamed : tree.Named)
    (search : Subpath.Search) {bound : Nat} (hbound : tree.toFileTree.depth ≤ bound) :
    tree.toFileTree.expanded bound search
      = tree.toFileTree.expanded tree.toFileTree.depth search := by
  rw [FileTree.expanded, FileTree.expanded]
  split
  next => rfl
  next dir _ =>
    split
    next hdir =>
      obtain ⟨k, names, hk, hnames, hnormal⟩ := h.sound.dir_normal _ hdir
      exact h.found_eq_of_le hnamed hk hnames hnormal (Nat.le_add_left _ _) hbound
    next => rfl

end MemoryTree

/-! ### Leaves -/

/-- A task and the checks that it leaves end without failure. -/
def Task.Completes (tree : FileTree) (task : Task) : Prop :=
  ∃ batch, task.check.result tree = .ok batch ∧ ∀ check ∈ batch.checks, check.result tree = .ok ()

namespace EntryTree

/-- A leaf that is a folder mapping and looks up a place that stops. -/
structure Misled (ctx : Context) (entry : EntryTree) (target : Crawl.Target) : Prop where
  /-- The leaf is looked at: targets of imports that are not relative are packages. -/
  crawled : entry.field = .imports → Text.hasStart target.value "." = true
  /-- Its target is a folder. -/
  folder : Text.hasEnd target.value "/" = true
  /-- The place of the pattern that replaces it cannot be looked up. -/
  stops : (Json.obj ctx.manifest).Stops (starredLocation target.location)

section

variable {tree : FileTree} {ctx : Context} {entry : EntryTree} {target : Crawl.Target}
  {value path : String}

/-- The check of a text never fails. -/
theorem result_checkContent (tree : FileTree) (entry : EntryTree) (path content value : String)
    (location : Location) (afterNode : Bool) (globbed : Option String) :
    (entry.checkContent path content value location afterNode globbed).result tree = .ok () := by
  rw [checkContent]
  split
  · rfl
  · split
    · split <;> rfl
    · split
      · rfl
      · refine Check.result_bind_eq_ok.mpr ⟨Source.classify content, ?_, rfl⟩
        rw [Check.result, FileFormat.run_check]

/-- The check of a file of a leaf never fails, on trees where every path can be asked for. -/
theorem result_fileCheck? (h : tree.TakesAnyPath) {check : Check Unit}
    (hcheck : entry.fileCheck? ctx value target path = some check) :
    check.result tree = .ok () := by
  have hread : (ctx.readEntry path target.location).result tree
      = .ok ((tree.firstText? (Context.candidates path [])).map Prod.snd) := by
    rw [Check.result, Context.run_readEntry h]
  rw [fileCheck?] at hcheck
  split at hcheck
  · simp at hcheck
  · split at hcheck
    · obtain rfl := Option.some.inj hcheck
      refine Check.result_bind_eq_ok.mpr ⟨_, hread, ?_⟩
      cases (tree.firstText? (Context.candidates path [])).map Prod.snd with
      | none => rfl
      | some content => exact result_checkContent tree entry path content value _ _ _
    · split at hcheck
      · obtain rfl := Option.some.inj hcheck
        exact Check.result_bind_eq_ok.mpr ⟨_, hread, rfl⟩
      · simp at hcheck

/-- A leaf that names a package completes, for there is nothing to look at. -/
theorem completes_of_package
    (hpackage : (entry.field = .imports && !Text.hasStart target.value ".") = true) :
    (entry.task ctx target).Completes tree := by
  refine ⟨{}, ?_, by simp⟩
  rw [task, checkTarget_eq, if_pos hpackage]
  rfl

/-- Any other leaf completes when the value to go on with can be told. -/
theorem completes_of_starFolder (h : tree.TakesAnyPath) (hl : tree.ListsDirs)
    (hcrawled : (entry.field = .imports && !Text.hasStart target.value ".") = false)
    (hvalue : (entry.starFolder ctx target).result tree = .ok value) :
    (entry.task ctx target).Completes tree := by
  obtain ⟨name, hresult⟩ := result_checkTarget hl hcrawled hvalue
  refine ⟨_, hresult, fun check hcheck => ?_⟩
  obtain ⟨path, -, hfile⟩ := List.mem_filterMap.mp hcheck
  exact result_fileCheck? h hfile

/-- The value to go on with can be told unless the look-up of a folder mapping stops. -/
theorem starFolder_isOk_iff :
    (∃ value, (entry.starFolder ctx target).result tree = .ok value)
      ↔ ¬(Text.hasEnd target.value "/" = true
          ∧ (Json.obj ctx.manifest).Stops (starredLocation target.location)) := by
  rw [not_and, ← Json.follow_isOk_iff, starFolder]
  split
  next hslash =>
    rw [imp_iff_right hslash]
    cases (Json.obj ctx.manifest).follow (starredLocation target.location) <;>
      simp [Check.ofExcept, Check.result, Check.run, Check.add]
  next hslash => exact iff_of_true ⟨_, rfl⟩ fun h => absurd h hslash

/-- A leaf that is misled fails before it has reported anything. -/
theorem Misled.run_eq (h : entry.Misled ctx target) (tree : FileTree) :
    ∃ e, (entry.checkTarget ctx target).run tree = ⟨[], .error e⟩ := by
  obtain ⟨e, he⟩ := h.stops.follow_isError
  have hcrawled : ¬(entry.field = .imports && !Text.hasStart target.value ".") = true := by
    simpa using h.crawled
  refine ⟨e, ?_⟩
  rw [checkTarget_eq, if_neg hcrawled, starFolder, if_pos h.folder, he]
  rfl

/-- The leaves that complete are those that are not misled. -/
theorem completes_iff (h : tree.TakesAnyPath) (hl : tree.ListsDirs) :
    (entry.task ctx target).Completes tree ↔ ¬entry.Misled ctx target := by
  constructor
  · rintro ⟨batch, hbatch, -⟩ hmisled
    obtain ⟨e, he⟩ := hmisled.run_eq tree
    rw [task, Check.result, he] at hbatch
    simp at hbatch
  · intro hmisled
    cases hcrawled : entry.field = .imports && !Text.hasStart target.value "." with
    | true => exact completes_of_package hcrawled
    | false =>
      obtain ⟨value, hvalue⟩ : ∃ value, (entry.starFolder ctx target).result tree = .ok value :=
        starFolder_isOk_iff.mpr fun hstops =>
          hmisled ⟨by simpa using hcrawled, hstops.1, hstops.2⟩
      exact completes_of_starFolder h hl hcrawled hvalue

/-- A leaf that is misled reports nothing. -/
theorem Misled.findings_eq_nil (h : entry.Misled ctx target) (tree : FileTree) :
    (entry.task ctx target).findings tree = [] := by
  obtain ⟨e, he⟩ := h.run_eq tree
  rw [Task.findings, task, Check.findings, Check.result, he]
  rfl

end

/-! ### Trees in memory -/

variable {tree : MemoryTree} {ctx : Context} {target : Crawl.Target}

/-- The bound on nested directories has no part in what a leaf does. -/
theorem run_checkTarget_bound (h : tree.Reachable) (hnamed : tree.Named)
    (hdepth : tree.toFileTree.depth ≤ ctx.depth) (entry : EntryTree) (target : Crawl.Target)
    {bound : Nat} (hbound : tree.toFileTree.depth ≤ bound) :
    (entry.checkTarget { ctx with depth := bound } target).run tree.toFileTree
      = (entry.checkTarget ctx target).run tree.toFileTree := by
  have hfiles (value : String) :
      (entry.targetFiles { ctx with depth := bound } value target.location).run tree.toFileTree
        = (entry.targetFiles ctx value target.location).run tree.toFileTree := by
    rw [run_targetFiles tree.listsDirs, run_targetFiles tree.listsDirs, files, files]
    split
    · have hsearch := h.expanded_eq_of_le hnamed (entry.search ctx value target.location) hbound
      rw [← h.expanded_eq_of_le hnamed (entry.search ctx value target.location) hdepth] at hsearch
      exact congrArg (fun found => Outcome.mk [] (Except.ok found)) hsearch
    · rfl
  have hchecks (value : String) (paths : List String) :
      (entry.fileChecks { ctx with depth := bound } value target paths).run tree.toFileTree
        = (entry.fileChecks ctx value target paths).run tree.toFileTree := by
    rw [run_fileChecks, run_fileChecks]
    rfl
  have hfinish (value : String) (paths : List String) :
      (entry.finish { ctx with depth := bound } target value paths).run tree.toFileTree
        = (entry.finish ctx target value paths).run tree.toFileTree := by
    rw [finish, finish]
    split
    · rfl
    · exact Check.run_bind_congr rfl fun _ =>
        Check.run_bind_congr (hchecks value paths) fun _ => rfl
  rw [checkTarget_eq, checkTarget_eq]
  split
  · rfl
  · exact Check.run_bind_congr rfl fun value => Check.run_bind_congr rfl fun _ =>
      Check.run_bind_congr (hfiles value) fun paths => hfinish value paths

/-- On a tree in memory whose files have names, a leaf and the checks of its files complete, unless the
leaf is a folder mapping and the place of the pattern that replaces it cannot be looked up; then all of
its findings are lost. No bound has a part in this. A place can be looked up in any value unless it
comes upon an array there and goes on with digits that denote no number, and an array is followed by
the decimal index of one of its items only. -/
theorem leaf_completes_iff {files : List (String × String)}
    (htree : MemoryTree.ofFiles files = .ok tree) (hnamed : tree.Named)
    (hdepth : tree.toFileTree.depth ≤ ctx.depth) (entry : EntryTree) (target : Crawl.Target) :
    ((entry.task ctx target).Completes tree.toFileTree ↔ ¬entry.Misled ctx target)
      ∧ (entry.Misled ctx target → (entry.task ctx target).findings tree.toFileTree = [])
      ∧ (∀ bound, tree.toFileTree.depth ≤ bound →
          (entry.checkTarget { ctx with depth := bound } target).run tree.toFileTree
            = (entry.checkTarget ctx target).run tree.toFileTree)
      ∧ (∀ (value : Json) (place : Location),
          (∃ found, value.follow place = .ok found) ↔ ¬value.Stops place)
      ∧ ∀ (items : List Json) (key : String) (rest : Location) (found : Json),
          (Json.arr items).follow (key :: rest) = .ok found →
            found = .null
              ∨ ∃ n item, Text.decimalNumber? key.toList = some n ∧ items[n]? = some item
                  ∧ item.follow rest = .ok found :=
  ⟨completes_iff tree.takesAnyPath tree.listsDirs,
    fun h => h.findings_eq_nil _,
    fun _ hbound =>
      run_checkTarget_bound (MemoryTree.reachable_ofFiles htree) hnamed hdepth entry target hbound,
    fun _ _ => Json.follow_isOk_iff, fun _ _ _ _ => Json.follow_arr_eq_ok⟩

/-- A mapping of a folder under the condition `²`, beside an array for the pattern that replaces it. -/
def superscriptExports : Json.Fields :=
  [("./a/", .obj [("²", .str "./x/")]), ("./a/*", .arr [.str "./y.js"])]

/-- The deprecated mapping is a leaf, and nothing is said of it. -/
theorem superscript_mapping_lost :
    ∃ tree, MemoryTree.ofFiles [("/p/y.js", "module.exports = 1")] = .ok tree
      ∧ (let ctx : Context :=
            { pkgDir := "/p", manifest := [("exports", .obj superscriptExports)], depth := 2 }
          let entry : EntryTree :=
            { field := .exports, tree := .ofJson (.obj superscriptExports)
              location := ["exports"] }
          let target : Crawl.Target := ⟨"./x/", ["exports", "./a/", "²"], false⟩
          target ∈ Crawl.targets .exports entry.location entry.tree
            ∧ ¬(entry.task ctx target).Completes tree.toFileTree
            ∧ (entry.task ctx target).findings tree.toFileTree = []) := by
  let tree : MemoryTree :=
    { files := [("/p/y.js", "module.exports = 1")], dirs := [("/", ["p"]), ("/p", ["y.js"])] }
  have htree : MemoryTree.ofFiles [("/p/y.js", "module.exports = 1")] = .ok tree := by rfl
  refine ⟨tree, htree, ?_⟩
  intro ctx entry target
  have hmisled : entry.Misled ctx target := by
    have hfalse : Json.IsFalseIndex "²" := ⟨by decide, Or.inl ⟨'²', by decide, by decide⟩⟩
    exact ⟨by decide, by decide, ["exports", "./a/*"], "²", [], [.str "./y.js"], by decide, rfl,
      hfalse⟩
  have hdepth : tree.toFileTree.depth ≤ ctx.depth := by decide
  obtain ⟨hcompletes, hlost, -⟩ := leaf_completes_iff htree (by decide) hdepth entry target
  exact ⟨by decide, fun h => hcompletes.mp h hmisled, hlost hmisled⟩

end EntryTree

end PackageLint
