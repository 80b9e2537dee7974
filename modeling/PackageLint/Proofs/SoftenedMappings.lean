import PackageLint.Proofs.FindingPlaces
import PackageLint.Proofs.LeafFailures
import PackageLint.Proofs.TaskCodes

/-!
# Folder mappings that are only a suggestion

A mapping of a folder is an error, unless the pattern that replaces it is in the manifest as well:
then the mapping is kept for older readers only, and there is merely a suggestion. Where the pattern
belongs is the place of the mapping with an asterisk behind every key that ends with a slash, and
whether it is there is told by a look-up of that place, whatever the look-up comes upon on its way.

## What goes wrong

A target can end with a slash under keys that do not. Then the place where the pattern belongs is
the place of the mapping itself, and what the look-up finds there is the mapping. So the severity is
the right one where, and only where, some key on the way ends with a slash; any other mapping of a
folder vouches for itself, and no pattern has to be there.

## Main definitions

* `Json.Leads`, `Json.HasAt` — what a value holds under a key, and at a place
* `EntryTree.Tells` — what a leaf reports of a mapping of a folder
* `Manifest.Maps` — the findings about folder mappings of a manifest

## Main results

* `Json.truthy_follow_iff` — what a look-up finds
* `Pass.maps_tasks` — of all that a pass finds, only these are about folder mappings
* `Pass.mapping_severity_iff` — how severe they are, and where that is right
-/

namespace PackageLint

/-! ### Indices -/

namespace Text

theorem decimalNumberFrom?_append (acc : Nat) (cs ds : List Char) :
    decimalNumberFrom? acc (cs ++ ds)
      = (decimalNumberFrom? acc cs).bind fun n => decimalNumberFrom? n ds := by
  induction cs generalizing acc with
  | nil => rfl
  | cons c cs ih => simp [decimalNumberFrom?, Option.bind_assoc, ih]

theorem decimalValue?_digitChar {d : Nat} (hd : d < 10) : decimalValue? d.digitChar = some d := by
  interval_cases d <;> decide

/-- The decimal text of a number denotes it. -/
theorem decimalNumber?_toString (n : Nat) : decimalNumber? (toString n).toList = some n := by
  have htext : (toString n).toList = Nat.toDigits 10 n := Nat.toList_repr
  have hempty : (Nat.toDigits 10 n).isEmpty = false := by simp
  rw [htext, decimalNumber?, hempty, if_neg (by simp)]
  -- the last digit of a longer text stands for the remainder
  induction n using Nat.strong_induction_on with
  | _ n ih =>
    rw [Nat.toDigits_eq_if (by omega)]
    split
    next hlt => simp [decimalNumberFrom?, decimalValue?_digitChar hlt]
    next hle =>
      have hlt : n / 10 < n := by omega
      have hdigit := decimalValue?_digitChar (Nat.mod_lt n (show 0 < 10 by omega))
      rw [decimalNumberFrom?_append, ih (n / 10) hlt Nat.toList_repr (by simp)]
      simp only [Option.bind_some, decimalNumberFrom?, hdigit, Nat.div_add_mod]

theorem allDigits_toString (n : Nat) : allDigits (toString n).toList = true := by
  have htext : (toString n).toList = Nat.toDigits 10 n := Nat.toList_repr
  rw [htext, allDigits, Bool.and_eq_true, List.all_eq_true]
  refine ⟨by simp, fun c hc => ?_⟩
  have hdigit := Nat.isDigit_of_mem_toDigits (by omega) le_rfl hc
  rw [Char.isDigit, Bool.and_eq_true, decide_eq_true_eq, decide_eq_true_eq] at hdigit
  have hlow : 48 ≤ c.toNat := hdigit.1
  have hhigh : c.toNat ≤ 57 := hdigit.2
  simp [isDigit, digitRanges, Ranges.holds, hhigh, Nat.not_lt.mpr hlow]

end Text

/-! ### What is at a place -/

namespace Json

/-- Where a key leads: in an object to the value of the key, and in an array to the item whose index
its digits denote. -/
inductive Leads : Json → String → Json → Prop
  | field {fields : Fields} {key : String} {next : Json}
      (hkey : Assoc.get? key fields = some next) : Leads (.obj fields) key next
  | item {items : List Json} {key : String} {n : Nat} {next : Json}
      (hdigits : Text.allDigits key.toList = true)
      (hn : Text.decimalNumber? key.toList = some n) (hitem : items[n]? = some next) :
      Leads (.arr items) key next

/-- What a value holds at a place. -/
inductive HasAt : Json → Location → Json → Prop
  | here {value : Json} : HasAt value [] value
  | step {value next found : Json} {key : String} {rest : Location} (hlead : Leads value key next)
      (h : HasAt next rest found) : HasAt value (key :: rest) found

variable {value next found : Json} {key : String} {rest place : Location}

theorem Leads.unique {next' : Json} (h : value.Leads key next) (h' : value.Leads key next') :
    next = next' := by
  cases h with
  | field hkey =>
    cases h' with
    | field hkey' => exact Option.some.inj (hkey.symm.trans hkey')
  | item _ hn hitem =>
    cases h' with
    | item _ hn' hitem' =>
      obtain rfl := Option.some.inj (hn.symm.trans hn')
      exact Option.some.inj (hitem.symm.trans hitem')

theorem hasAt_nil : value.HasAt [] found ↔ found = value := by
  constructor
  · rintro ⟨⟩
    rfl
  · rintro rfl
    exact .here

theorem hasAt_cons :
    value.HasAt (key :: rest) found ↔ ∃ next, value.Leads key next ∧ next.HasAt rest found := by
  constructor
  · rintro (_ | ⟨hlead, h⟩)
    exact ⟨_, hlead, h⟩
  · rintro ⟨next, hlead, h⟩
    exact .step hlead h

/-- What is at the place of a node is there in this sense too. -/
theorem hasAt_of_at? (h : value.at? place = some found) : value.HasAt place found := by
  induction place generalizing value with
  | nil =>
    rw [at?_nil, Option.some.injEq] at h
    exact hasAt_nil.mpr h.symm
  | cons key rest ih =>
    cases value with
    | obj fields =>
      obtain ⟨next, hkey, hnext⟩ := Option.bind_eq_some_iff.mp h
      exact .step (.field hkey) (ih hnext)
    | arr items =>
      obtain ⟨next, hkey, hnext⟩ := Option.bind_eq_some_iff.mp h
      obtain ⟨n, hitem, rfl⟩ := Location.item?_eq_some hkey
      rw [Nat.zero_add]
      have hlead : Leads (.arr items) (toString n) next :=
        .item (Text.allDigits_toString n) (Text.decimalNumber?_toString n) hitem
      exact .step hlead (ih hnext)
    | _ => simp [at?] at h

theorem follow_null (place : Location) : Json.null.follow place = .ok .null := by
  cases place <;> rfl

/-- A look-up goes on where its first key leads, and ends with null where that leads nowhere. -/
theorem follow_cons (h : value.follow (key :: rest) = .ok found) :
    (∃ next, value.Leads key next ∧ next.follow rest = .ok found)
      ∨ (∀ next, ¬value.Leads key next) ∧ found = .null := by
  cases value with
  | obj fields =>
    rw [follow, field] at h
    cases hkey : Assoc.get? key fields with
    | some next =>
      rw [hkey, Option.getD_some] at h
      exact Or.inl ⟨next, .field hkey, h⟩
    | none =>
      rw [hkey, Option.getD_none, follow_null] at h
      refine Or.inr ⟨?_, (Except.ok.inj h).symm⟩
      rintro next ⟨hkey'⟩
      simp [hkey] at hkey'
  | arr items =>
    rw [follow] at h
    split at h
    next hdigits =>
      cases hindex : indexOfKey key with
      | error e => simp [hindex] at h
      | ok n =>
        have hn := indexOfKey_eq_ok hindex
        simp only [hindex] at h
        cases hitem : items[n]? with
        | some next =>
          rw [hitem] at h
          exact Or.inl ⟨next, .item hdigits hn hitem, h⟩
        | none =>
          rw [hitem] at h
          refine Or.inr ⟨?_, (Except.ok.inj h).symm⟩
          rintro next (_ | ⟨-, hn', hitem'⟩)
          obtain rfl := Option.some.inj (hn.symm.trans hn')
          simp [hitem] at hitem'
    next hdigits =>
      refine Or.inr ⟨?_, (Except.ok.inj h).symm⟩
      rintro next (_ | ⟨hdigits', -, -⟩)
      exact hdigits hdigits'
  | null | bool _ | int _ | float _ | str _ =>
    refine Or.inr ⟨?_, (Except.ok.inj h).symm⟩
    rintro next ⟨⟩

/-- A look-up that does not fail finds a truthy value where there is one. -/
theorem truthy_follow_iff (h : value.follow place = .ok found) :
    found.truthy = true ↔ ∃ v, value.HasAt place v ∧ v.truthy = true := by
  induction place generalizing value with
  | nil =>
    obtain rfl := Except.ok.inj h
    simp [hasAt_nil]
  | cons key rest ih =>
    simp only [hasAt_cons]
    rcases follow_cons h with ⟨next, hlead, hnext⟩ | ⟨hnone, rfl⟩
    · rw [ih hnext]
      refine exists_congr fun v => and_congr_left fun _ => ?_
      constructor
      · intro hat
        exact ⟨next, hlead, hat⟩
      · rintro ⟨next', hlead', hat⟩
        exact hlead.unique hlead' ▸ hat
    · simp [truthy, hnone]

end Json

/-! ### The check of a leaf -/

namespace EntryTree

/-- The codes of findings about folder mappings. -/
def mappingCodes : List Code :=
  [.entry .exports .globNoDeprecatedSubpathMapping, .entry .imports .globNoDeprecatedSubpathMapping]

variable {ctx : Context} {entry : EntryTree} {target : Crawl.Target} {location : Location}

/-- Whether a finding is about something else than a folder mapping. -/
def IsOther (d : Diagnostic) : Prop := d.code ∉ mappingCodes

theorem isOther_rule {d : Diagnostic} {field : EntryField} {rule : EntryRule}
    (hcode : d.code = .entry field rule) (hrule : rule ≠ .globNoDeprecatedSubpathMapping) :
    IsOther d := by
  simp [IsOther, mappingCodes, hcode, hrule]

/-- The check that a leaf leaves for a file finds nothing about folder mappings. -/
theorem LeavesCheck.other {value : String} {check : Check Unit}
    (h : LeavesCheck ctx entry target value check) : check.Only IsOther := by
  have hcodes : ∀ code ∈ fileCodes entry.field, code ∉ mappingCodes := by
    cases entry.field <;> decide
  exact h.reports.imp (fun d => hcodes d.code) fun _ => id

theorem other_reportStart (value : String) (location : Location) :
    (entry.reportStart value location).Only IsOther := by
  rw [reportStart]
  split
  · exact .done trivial
  · exact Check.only_add (isOther_rule rfl (by decide))

theorem other_reportConflict (value : String) (location : Location) :
    (entry.reportConflict value location).Only IsOther := by
  rw [reportConflict, browserConflict?]
  cases entry.isRemapped value with
  | false => exact .done trivial
  | true =>
    cases browserishConditions.find? location.contains with
    | none => exact .done trivial
    | some condition => exact Check.only_add (by simp [IsOther, mappingCodes])

/-- Once its files are known, a leaf finds nothing about folder mappings any more. -/
theorem other_finish (value : String) (files : List String) :
    (entry.finish ctx target value files).Meets IsOther fun batch =>
      ∀ check ∈ batch.checks, check.Only IsOther := by
  rw [finish]
  split
  · exact .report (isOther_rule rfl (by decide))
      (.done fun _ hcheck => absurd hcheck List.not_mem_nil)
  · have hjsx : ∀ d : Diagnostic, d.code = .fileInvalidJsxExtension →
        d.location = target.location → IsOther d := by
      intro d hcode _
      simp [IsOther, mappingCodes, hcode]
    refine (other_reportConflict value target.location).bind fun _ _ =>
      (meets_fileChecks files hjsx).bind fun checks hchecks => .done ?_
    intro check hcheck
    exact (hchecks check hcheck).other

/-- What a leaf finds about folder mappings is about itself: its target ends with a slash, and the
severity is told by what the place of the pattern leads to. -/
def Tells (ctx : Context) (entry : EntryTree) (target : Crawl.Target) (d : Diagnostic) : Prop :=
  Text.hasEnd target.value "/" = true
    ∧ ∃ starred, (Json.obj ctx.manifest).follow (starredLocation target.location) = .ok starred
      ∧ d = entry.folderMapping target starred

theorem tells_starFolder (ctx : Context) (entry : EntryTree) (target : Crawl.Target) :
    (starFolder ctx entry target).Only (entry.Tells ctx target) := by
  rw [starFolder]
  split
  next hslash =>
    cases hfollow : (Json.obj ctx.manifest).follow (starredLocation target.location) with
    | error e => exact .fail e
    | ok starred => exact .report ⟨hslash, starred, hfollow, rfl⟩ (.done trivial)
  next => exact .done trivial

/-- What a leaf finds is about its own mapping, or about something else. -/
theorem tells_task (ctx : Context) (entry : EntryTree) (target : Crawl.Target) :
    (entry.task ctx target).Only fun d => entry.Tells ctx target d ∨ IsOther d := by
  change (entry.checkTarget ctx target).Meets _ _
  rw [checkTarget_eq]
  split
  · exact .done fun _ hcheck => absurd hcheck List.not_mem_nil
  · refine ((tells_starFolder ctx entry target).imp (fun _ => Or.inl) fun _ => id).bind
      fun value _ => ?_
    refine ((other_reportStart value target.location).imp (fun _ => Or.inr) fun _ => id).bind
      fun _ _ => (only_targetFiles target.location).bind fun files _ => ?_
    refine (other_finish value files).imp (fun _ => Or.inr) ?_
    intro batch hbatch check hcheck
    exact (hbatch check hcheck).imp (fun _ => Or.inr) fun _ => id

/-- The place of the pattern is another one than that of the mapping just where some key ends with a
slash. -/
theorem starredLocation_ne_iff :
    starredLocation location ≠ location ↔ ∃ key ∈ location, Text.hasEnd key "/" = true := by
  have hsame : starredLocation location = location
      ↔ ∀ key ∈ location, ¬Text.hasEnd key "/" = true := by
    rw [starredLocation]
    nth_rewrite 2 [← List.map_id location]
    rw [List.map_inj_left]
    refine forall₂_congr fun key _ => ?_
    have hne : key ++ "*" ≠ key := by
      intro heq
      simpa using congrArg (fun s : String => s.toList.length) heq
    by_cases hslash : Text.hasEnd key "/" = true <;> simp [hslash, hne]
  rw [Ne, hsame]
  push Not
  exact Iff.rfl

end EntryTree

/-! ### Passes -/

/-- A finding about a folder mapping of a manifest: the mapping is where the finding says, and the
severity is told by what the place of the pattern leads to. -/
def Manifest.Maps (manifest : Manifest) (d : Diagnostic) : Prop :=
  ∃ (entry : EntryTree) (target : Crawl.Target) (starred : Json),
    (Json.obj manifest).at? target.location = some (.str target.value)
      ∧ Text.hasEnd target.value "/" = true
      ∧ (Json.obj manifest).follow (EntryTree.starredLocation target.location) = .ok starred
      ∧ d = entry.folderMapping target starred

namespace Pass

open EntryTree

variable {ctx : Context} {task : Task} {d : Diagnostic}

/-- The task of a leaf finds its own mapping only, which is a string of the manifest. -/
theorem maps_leafTask (hk : (Json.obj ctx.manifest).DistinctKeys) (h : LeafTask ctx task) :
    task.Only fun d => ctx.manifest.Maps d ∨ IsOther d := by
  obtain @⟨field, entry, target, hset, htree, hplace, htarget⟩ := h
  obtain ⟨hat, hdistinct⟩ := at?_of_isSet hk hset
  obtain ⟨place, hlocation, hleaf, -⟩ :=
    (Crawl.mem_targets (htree ▸ ConditionTree.distinctKeys_ofJson hdistinct)).mp htarget
  rw [htree, ConditionTree.at?_eq_leaf] at hleaf
  have hstring : (Json.obj ctx.manifest).at? target.location = some (.str target.value) := by
    rw [hlocation, hplace]
    exact Manifest.at?_below hat hleaf
  refine Task.Only.imp (tells_task ctx entry target) fun d hd => hd.imp ?_ id
  rintro ⟨hslash, starred, hfollow, rfl⟩
  exact ⟨entry, target, starred, hstring, hslash, hfollow, rfl⟩

/-- Of all that the tasks of a pass may report, only what leaves find is about folder mappings. -/
theorem maps_tasks (hk : (Json.obj ctx.manifest).DistinctKeys) (h : task ∈ (plan ctx).tasks) :
    task.Only fun d => ctx.manifest.Maps d ∨ IsOther d := by
  have hothers : ∀ {codes : List Code}, task.Reports codes →
      (∀ code ∈ codes, code ∉ mappingCodes) →
      task.Only fun d => ctx.manifest.Maps d ∨ IsOther d :=
    fun hreports hcodes => Task.Only.imp hreports fun d hcode => Or.inr (hcodes d.code hcode)
  rcases task_cases h with hleaf | hroot | hplain
  · exact maps_leafTask hk hleaf
  · exact hothers hroot.reports (by decide)
  · exact hothers hplain (by decide)

/-- What a pass shows about folder mappings is what it finds, in strict mode too. -/
theorem maps_of_mem_diagnostics {tree : FileTree} {pkgDir workDir : String} {options : Options}
    {result : Result} (h : run tree pkgDir options workDir = .ok result)
    (hd : d ∈ result.diagnostics) (hcode : d.code ∈ mappingCodes) : result.manifest.Maps d := by
  obtain ⟨manifest, hload, rfl⟩ := run_eq_ok_iff.mp h
  have hk : (Json.obj manifest).DistinctKeys := Manifest.distinctKeys_load hload
  rw [resultOf] at hd
  rw [atLevel_logOf] at hd
  obtain ⟨e, he, heq⟩ := List.mem_map.mp (List.mem_of_mem_filter hd)
  have hcodes : d.code = e.code := by
    rw [← heq]
    split <;> rfl
  have hmaps : manifest.Maps e := by
    have hplan : ∀ code ∈ mappingCodes, code ∉ planCodes := by decide
    obtain ⟨task, htask, he⟩ := exists_task_of_mem he (hplan _ (hcodes ▸ hcode))
    have hmaps := Task.of_mem_findings (maps_tasks hk htask) he
    exact hmaps.resolve_right fun hother => hother (hcodes ▸ hcode)
  obtain ⟨entry, target, starred, hstring, hslash, hfollow, rfl⟩ := hmaps
  refine ⟨entry, target, starred, hstring, hslash, hfollow, ?_⟩
  -- neither severity is changed in strict mode
  rw [← heq]
  split
  · cases hstarred : starred.truthy <;>
      simp [Log.escalateOne, folderMapping, hstarred, Severity.escalated]
  · rfl

/-- A finding of a pass about a folder mapping names the place of the pattern that replaces it: that
of the mapping, with an asterisk behind every key that ends with a slash. It is a suggestion where
the manifest holds a truthy value at that place, and an error elsewhere. This is so as well where no
key ends with a slash; the value is then the mapping itself. So that the pattern has to be elsewhere
than the mapping for a suggestion is true just where some key ends with a slash. -/
theorem mapping_severity_iff {tree : FileTree} {pkgDir workDir : String} {options : Options}
    {result : Result} {field : EntryField} (h : run tree pkgDir options workDir = .ok result)
    (hd : d ∈ result.diagnostics) (hcode : d.code = .entry field .globNoDeprecatedSubpathMapping) :
    let starred := EntryTree.starredLocation d.location
    let Held : Prop := ∃ value, (Json.obj result.manifest).HasAt starred value ∧ value.truthy = true
    Assoc.get? "expect_path" d.args = some (.strs starred)
      ∧ (d.severity = .suggestion ↔ Held) ∧ (d.severity = .error ↔ ¬Held)
      ∧ (starred = d.location → d.severity = .suggestion)
      ∧ ((d.severity = .suggestion ↔ Held ∧ starred ≠ d.location)
          ↔ ∃ key ∈ d.location, Text.hasEnd key "/" = true) := by
  intro starred Held
  have hmapping : d.code ∈ mappingCodes := by
    rw [hcode]
    cases field <;> decide
  obtain ⟨entry, target, found, hstring, hslash, hfollow, rfl⟩ :=
    maps_of_mem_diagnostics h hd hmapping
  have hheld : found.truthy = true ↔ Held := Json.truthy_follow_iff hfollow
  have hsuggestion : (entry.folderMapping target found).severity = .suggestion ↔ Held := by
    rw [← hheld]
    cases htruthy : found.truthy <;> simp [folderMapping, htruthy]
  have herror : (entry.folderMapping target found).severity = .error ↔ ¬Held := by
    rw [← hheld]
    cases htruthy : found.truthy <;> simp [folderMapping, htruthy]
  have hself : starred = target.location → Held := by
    intro heq
    refine ⟨_, heq ▸ Json.hasAt_of_at? hstring, ?_⟩
    have hne : target.value ≠ "" := by
      rintro hempty
      rw [hempty] at hslash
      exact absurd hslash (by decide)
    simpa [Json.truthy] using hne
  refine ⟨rfl, hsuggestion, herror, fun heq => hsuggestion.mpr (hself heq), ?_⟩
  rw [hsuggestion]
  refine Iff.trans ?_ starredLocation_ne_iff
  constructor
  · intro hrule heq
    exact (hrule.mp (hself heq)).2 heq
  · intro hne
    exact (and_iff_left hne).symm

/-- The key of the mapping does not end with a slash, and no pattern is in the manifest. -/
theorem unslashed_mapping_softened :
    ∃ tree result,
      MemoryTree.ofFiles
          [("/p/package.json", "\x7b\"exports\":\x7b\"./a\":\"./lib/\"\x7d\x7d")] = .ok tree
        ∧ run tree.toFileTree "/p" {} "/" = .ok result
        ∧ ∃ d ∈ result.diagnostics, d.code = .entry .exports .globNoDeprecatedSubpathMapping
          ∧ d.location = ["exports", "./a"] ∧ d.severity = .suggestion
          ∧ EntryTree.starredLocation d.location = d.location := by
  let files := [("/p/package.json", "\x7b\"exports\":\x7b\"./a\":\"./lib/\"\x7d\x7d")]
  let tree : MemoryTree := { files, dirs := [("/", ["p"]), ("/p", ["package.json"])] }
  have htree : MemoryTree.ofFiles files = .ok tree := by rfl
  have hfound : ((run tree.toFileTree "/p" {} "/").toOption.map fun result =>
      result.diagnostics.any fun d => d.location = ["exports", "./a"]
        && d.code = .entry .exports .globNoDeprecatedSubpathMapping) = some true := by
    decide +kernel
  cases hrun : run tree.toFileTree "/p" {} "/" with
  | error e => simp [hrun, Except.toOption] at hfound
  | ok result =>
    obtain ⟨d, hd, hlocation, hcode⟩ : ∃ d ∈ result.diagnostics, d.location = ["exports", "./a"]
        ∧ d.code = .entry .exports .globNoDeprecatedSubpathMapping := by
      simpa [hrun, Except.toOption] using hfound
    obtain ⟨-, -, -, hself, -⟩ := mapping_severity_iff hrun hd hcode
    have hsame : EntryTree.starredLocation d.location = d.location := by
      rw [hlocation]
      decide
    exact ⟨tree, result, htree, hrun, d, hd, hcode, hlocation, hself hsame, hsame⟩

end Pass

end PackageLint
