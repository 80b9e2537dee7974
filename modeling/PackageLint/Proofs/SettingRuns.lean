import PackageLint.Proofs.WrittenSettings
import PackageLint.Settings.View

/-!
# Runs of changes

What settings come to say is told without any text: a table gives the value of each key in each scope, and
a change puts a value into one place of it, or takes one away. The files follow this table through every
run of changes, as far as what is written can be read again, and the settings in force are found in it.

A file that is not there, cannot be read, is malformed or holds no mapping has no values, and the first
change that is made to it puts it right. A file whose path is too long, whose bytes are no text, or which
names a number or a date that does not exist, is none of these: the program stops at it before anything is
changed, and also before the settings in force are found.

## Main definitions

* `Settings.Stored.values`, `Settings.table` — the values in a file, and in both
* `Settings.Change` — setting or removing a key in a scope
* `Settings.Change.record` — a change of the table
* `Settings.Follows` — the files say what a table says

## Main results

* `Settings.Change.result` — what a change writes, or why it is refused
* `Settings.Follows.step`, `Settings.Follows.run` — the files follow the table
* `Settings.get?_overlay` — the value of a key in mappings that are merged
* `Settings.changes_keep_other_keys` — runs of changes, and the settings in force after them
-/

namespace PackageLint.Settings

open Yaml (Mapping Scalar SameOrNone SameValues Kept isMapping)

variable {settings : Settings} {scope : Scope}

/-! ### What files say -/

/-- The values of keys, or why the program stops. -/
abbrev Values := Except Fatal (Scalar → Option Yaml)

/-- The values of the keys in a file. What counts as an empty file has none. -/
def Stored.values : Stored → Values
  | .absent | .unreadable => .ok fun _ => none
  | .nameTooLong => .error .nameTooLong
  | .undecodable => .error .undecodable
  | .text content =>
    match Yaml.read content with
    | .ok value => .ok fun key => value.entries?.bind (Mapping.get? key)
    | .error .malformed => .ok fun _ => none
    | .error fault => .error (.impossible fault)

/-- The values of the keys in each scope. -/
abbrev Table := Scope → Values

/-- What both files say. -/
def table (settings : Settings) : Table := fun scope => (settings.stored scope).values

/-- A mapping has the same values of all keys, or the program stops for the same cause. -/
inductive Agree : Except Fatal Mapping → Values → Prop
  | same {m : Mapping} {values : Scalar → Option Yaml}
      (h : SameValues (fun key => m.get? key) values) : Agree (.ok m) (.ok values)
  | stops (cause : Fatal) : Agree (.error cause) (.error cause)

section

variable {found : Except Fatal Mapping} {values : Values} {m : Mapping} {f : Scalar → Option Yaml}
  {cause : Fatal}

theorem Agree.values_of_ok (h : Agree found values) (hm : found = .ok m) :
    ∃ f, values = .ok f ∧ SameValues (fun key => m.get? key) f := by
  cases h with
  | same hsame =>
    obtain rfl := Except.ok.inj hm
    exact ⟨_, rfl, hsame⟩
  | stops => simp at hm

theorem Agree.mapping_of_ok (h : Agree found values) (hf : values = .ok f) :
    ∃ m, found = .ok m ∧ SameValues (fun key => m.get? key) f := by
  cases h with
  | same hsame =>
    obtain rfl := Except.ok.inj hf
    exact ⟨_, rfl, hsame⟩
  | stops => simp at hf

theorem Agree.eq_error_iff (h : Agree found values) :
    found = .error cause ↔ values = .error cause := by
  cases h <;> simp

end

/-- A value that counts as empty has no entries. -/
theorem entries?_of_not_truthy {value : Yaml} (h : value.truthy = false) {m : Mapping}
    (hm : value.entries? = some m) : m = [] := by
  induction value using Yaml.entries?.induct generalizing m with
  | case1 entries =>
    obtain rfl := Option.some.inj hm
    simpa [Yaml.truthy] using h
  | case2 place value ih =>
    obtain ⟨inner, hinner, rfl⟩ := Option.map_eq_some_iff.mp hm
    rw [ih h hinner]
    rfl
  | case3 value hmap hshared => simp [Yaml.entries?] at hm

/-- The mapping that a value counts as has the values of its entries, if it is a mapping. -/
theorem get?_mapping_ofValue (value : Yaml) (key : Scalar) :
    (Reading.ofValue value).mapping.get? key = value.entries?.bind (Mapping.get? key) := by
  rw [Reading.ofValue]
  cases htruthy : value.truthy with
  | true => cases value.entries? <;> rfl
  | false =>
    cases hentries : value.entries? with
    | none => rfl
    | some m =>
      rw [entries?_of_not_truthy htruthy hentries]
      rfl

/-- The mapping that is read from a file has its values. -/
theorem agree_values (stored : Stored) :
    Agree (stored.reading.map Reading.mapping) stored.values := by
  cases stored with
  | absent => exact .same (.refl _)
  | nameTooLong => exact .stops _
  | unreadable => exact .same (.refl _)
  | undecodable => exact .stops _
  | text content =>
    rw [Stored.reading, Stored.values, Reading.ofText]
    cases Yaml.read content with
    | ok value => exact .same fun key => .of_eq (get?_mapping_ofValue value key)
    | error fault => cases fault <;> first | exact .same (.refl _) | exact .stops _

/-- The keys of the mapping that is read from a text differ. -/
theorem distinctKeys_of_ofText {content : String} {reading : Reading}
    (h : Reading.ofText content = .ok reading) : reading.mapping.DistinctKeys := by
  rw [Reading.ofText] at h
  split at h
  next value hread =>
    obtain rfl := Except.ok.inj h
    rw [Reading.ofValue]
    split
    · split
      next m hentries => exact Yaml.distinctKeys_of_read hread hentries
      next => exact List.nodup_nil
    · exact List.nodup_nil
  next =>
    obtain rfl := Except.ok.inj h
    exact List.nodup_nil
  next => simp at h

theorem distinctKeys_of_reading {stored : Stored} {reading : Reading}
    (h : stored.reading = .ok reading) : reading.mapping.DistinctKeys := by
  cases stored with
  | absent =>
    obtain rfl := Except.ok.inj h
    exact List.nodup_nil
  | unreadable =>
    obtain rfl := Except.ok.inj h
    exact List.nodup_nil
  | nameTooLong => simp [Stored.reading] at h
  | undecodable => simp [Stored.reading] at h
  | text content => exact distinctKeys_of_ofText h

theorem distinctKeys_of_mappingAt {m : Mapping} (h : settings.mappingAt scope = .ok m) :
    m.DistinctKeys := by
  obtain ⟨reading, hreading, rfl⟩ := Yaml.except_map_eq_ok.mp h
  exact distinctKeys_of_reading hreading

/-! ### Changes -/

/-- A change of a key in a scope: it gets a value, or is removed. -/
structure Change where
  /-- The scope. -/
  scope : Scope
  /-- The key. -/
  key : String
  /-- The value; without one, the key is removed. -/
  value? : Option Yaml

namespace Change

/-- Tries to make a change. -/
def attempt (change : Change) (settings : Settings) : Except ChangeError Settings :=
  match change.value? with
  | some value => settings.set change.scope change.key value
  | none => settings.remove change.scope change.key

/-- The settings after a change. One that is refused leaves them as they are. -/
def after (settings : Settings) (change : Change) : Settings :=
  match change.attempt settings with
  | .ok changed => changed
  | .error _ => settings

/-- Whether a key may be changed so: only what is known can be set, and anything removed. -/
def isKnown (change : Change) : Bool := change.value?.isNone || knownKeys.contains change.key

/-- Why a change is refused, given the values in its scope. -/
def refusal? (change : Change) (values : Values) : Option ChangeError :=
  if change.isKnown then
    match values with
    | .ok _ => none
    | .error cause => some (.fatal cause)
  else some (.unknownKey change.key)

/-- The table after a change: in its scope, its key has its value. -/
def record (table : Table) (change : Change) : Table :=
  if change.isKnown then
    Function.update table change.scope
      ((table change.scope).map fun values => Function.update values (.str change.key) change.value?)
  else table

end Change

/-- The settings after a run of changes. -/
def afterAll (settings : Settings) (changes : List Change) : Settings :=
  changes.foldl Change.after settings

/-- The table after a run of changes. -/
def Table.recordAll (table : Table) (changes : List Change) : Table :=
  changes.foldl Change.record table

/-- What trying to make a change can come to. -/
inductive Change.Result (settings : Settings) (change : Change) : Except ChangeError Settings → Prop
  /-- The key is not known. -/
  | unknown (hknown : change.isKnown = false) : Result settings change (.error (.unknownKey change.key))
  /-- The program stops at the file. -/
  | stopped {cause : Fatal} (hknown : change.isKnown = true)
      (hmapping : settings.mappingAt change.scope = .error cause) :
      Result settings change (.error (.fatal cause))
  /-- There is nothing to remove. -/
  | missing {m : Mapping} (hknown : change.isKnown = true)
      (hmapping : settings.mappingAt change.scope = .ok m) (hvalue : change.value? = none)
      (hmissing : m.get? (.str change.key) = none) : Result settings change (.ok settings)
  /-- The file is written with its mapping, in which the key has its value or none. -/
  | written {m : Mapping} (hknown : change.isKnown = true)
      (hmapping : settings.mappingAt change.scope = .ok m) :
      Result settings change (.ok (settings.withText change.scope
        (Yaml.write (m.withValue (.str change.key) change.value?))))

theorem Change.result (settings : Settings) (change : Change) :
    change.Result settings (change.attempt settings) := by
  obtain ⟨scope, key, value?⟩ := change
  cases value? with
  | some value =>
    change Result settings _ (settings.set scope key value)
    rw [set]
    split
    next hkey =>
      have hknown : isKnown ⟨scope, key, some value⟩ = true := hkey
      cases hmapping : settings.mappingAt scope with
      | ok m => exact .written hknown hmapping
      | error cause => exact .stopped hknown hmapping
    next hkey => exact .unknown (Bool.eq_false_iff.mpr hkey)
  | none =>
    change Result settings _ (settings.remove scope key)
    rw [remove]
    cases hmapping : settings.mappingAt scope with
    | error cause => exact .stopped rfl hmapping
    | ok m =>
      simp only
      split
      next => exact .written rfl hmapping
      next hmissing => exact .missing rfl hmapping rfl (Option.not_isSome_iff_eq_none.mp hmissing)

/-! ### Following a table -/

/-- Whether what is put into a key is of a kind. -/
def Change.OfKind (kind : Scalar → Yaml → Prop) (change : Change) : Prop :=
  change.isKnown = true → ∀ value ∈ change.value?, kind (.str change.key) value

/-- Whether all that is kept in the files is of a kind. -/
def OfKind (kind : Scalar → Yaml → Prop) (settings : Settings) : Prop :=
  ∀ scope m, settings.mappingAt scope = .ok m → ∀ entry ∈ m, kind entry.1 entry.2

/-- Whether the files say what a table says, and all that is kept in them is of a kind. -/
structure Follows (kind : Scalar → Yaml → Prop) (settings : Settings) (table : Table) : Prop where
  agree : ∀ scope, Agree (settings.mappingAt scope) (table scope)
  ofKind : settings.OfKind kind

variable {kind : Scalar → Yaml → Prop} {table : Table} {change : Change}

theorem follows_table (h : settings.OfKind kind) : Follows kind settings settings.table :=
  ⟨fun scope => agree_values (settings.stored scope), h⟩

theorem mappingAt_withText_self (settings : Settings) (scope : Scope) (content : String) :
    (settings.withText scope content).mappingAt scope
      = (Reading.ofText content).map Reading.mapping := by
  rw [mappingAt, stored_withText_self, Stored.reading]

theorem mapping_ofValue_map (m : Mapping) : (Reading.ofValue (.map m)).mapping = m := by
  rw [Reading.ofValue]
  cases m <;> rfl

/-- A mapping that is written is the one that is found, but for the order of the keys. -/
theorem mappingAt_write (hkept : Kept kind) {m : Mapping} (hm : m.DistinctKeys)
    (hkind : ∀ entry ∈ m, kind entry.1 entry.2) (settings : Settings) (scope : Scope) :
    ∃ found, (settings.withText scope (Yaml.write m)).mappingAt scope = .ok found
      ∧ SameValues (fun key => found.get? key) (fun key => m.get? key)
      ∧ ∀ entry ∈ found, kind entry.1 entry.2 := by
  obtain ⟨found, hread, hsame, hfound⟩ := hkept m hm hkind
  refine ⟨found, ?_, Yaml.same_map_iff.mp hsame, hfound⟩
  rw [mappingAt_withText_self, Reading.ofText, hread]
  exact congrArg Except.ok (mapping_ofValue_map found)

/-- The files follow a table in which one scope has changed. -/
theorem Follows.update (h : Follows kind settings table) {settings' : Settings} {values : Values}
    (hother : ∀ other, other ≠ scope → settings'.stored other = settings.stored other)
    (hagree : Agree (settings'.mappingAt scope) values)
    (hkind : ∀ m, settings'.mappingAt scope = .ok m → ∀ entry ∈ m, kind entry.1 entry.2) :
    Follows kind settings' (Function.update table scope values) := by
  have hmapping : ∀ other, other ≠ scope → settings'.mappingAt other = settings.mappingAt other :=
    fun other hne => by rw [mappingAt, hother other hne, mappingAt]
  refine ⟨fun other => ?_, fun other m hm => ?_⟩
  · by_cases hne : other = scope
    · subst hne
      rwa [Function.update_self]
    · rw [Function.update_of_ne hne, hmapping other hne]
      exact h.agree other
  · by_cases hne : other = scope
    · subst hne
      exact hkind m hm
    · exact h.ofKind other m (hmapping other hne ▸ hm)

/-- After a change the files follow the table after it. -/
theorem Follows.step (hkept : Kept kind) (h : Follows kind settings table)
    (hchange : change.OfKind kind) :
    Follows kind (change.after settings) (change.record table) := by
  have hresult := change.result settings
  rw [Change.after, Change.record]
  generalize change.attempt settings = attempt at hresult
  cases hresult with
  | unknown hknown =>
    rw [if_neg (by simp [hknown])]
    exact h
  | @stopped cause hknown hmapping =>
    have hsame : (table change.scope).map
        (fun values => Function.update values (.str change.key) change.value?) = table change.scope := by
      rw [(h.agree _).eq_error_iff.mp hmapping]
      rfl
    rw [if_pos hknown, hsame, Function.update_eq_self]
    exact h
  | @missing m hknown hmapping hvalue hmissing =>
    obtain ⟨values, hvalues, hsame⟩ := (h.agree _).values_of_ok hmapping
    have hnothing : Function.update (fun key => m.get? key) (.str change.key) none
        = fun key => m.get? key := Function.update_eq_iff.mpr ⟨hmissing.symm, fun _ _ => rfl⟩
    rw [if_pos hknown, hvalues, hvalue]
    refine h.update (fun _ _ => rfl) ?_ (h.ofKind change.scope)
    rw [hmapping]
    refine .same ?_
    rw [← hnothing]
    exact hsame.update (.str change.key) none
  | @written m hknown hmapping =>
    obtain ⟨values, hvalues, hsame⟩ := (h.agree _).values_of_ok hmapping
    have hkind : ∀ entry ∈ m.withValue (.str change.key) change.value?, kind entry.1 entry.2 := by
      intro entry hentry
      rcases Mapping.mem_withValue hentry with hold | ⟨value, hvalue, rfl⟩
      · exact h.ofKind change.scope m hmapping entry hold
      · exact hchange hknown value hvalue
    have hdistinct := (distinctKeys_of_mappingAt hmapping).withValue (.str change.key) change.value?
    obtain ⟨found, hfound, hwritten, hfoundKind⟩ :=
      mappingAt_write hkept hdistinct hkind settings change.scope
    rw [if_pos hknown, hvalues]
    refine h.update (fun _ hne => stored_withText_of_ne settings hne _) ?_ fun m' hm' => ?_
    · rw [hfound]
      rw [Mapping.get?_withValue] at hwritten
      exact .same (hwritten.trans (hsame.update _ _))
    · obtain rfl := Except.ok.inj (hfound.symm.trans hm')
      exact hfoundKind

/-- After a run of changes the files follow the table after it. -/
theorem Follows.run (hkept : Kept kind) (h : Follows kind settings table) {changes : List Change}
    (hchanges : ∀ change ∈ changes, change.OfKind kind) :
    Follows kind (settings.afterAll changes) (table.recordAll changes) := by
  induction changes generalizing settings table with
  | nil => exact h
  | cons change rest ih =>
    obtain ⟨hchange, hrest⟩ := List.forall_mem_cons.mp hchanges
    exact ih (h.step hkept hchange) hrest

/-! ### What one change does -/

/-- A change is refused exactly when its key is not known, or the program stops at its file. -/
theorem Follows.attempt_eq_error_iff (h : Follows kind settings table) {e : ChangeError} :
    change.attempt settings = .error e ↔ change.refusal? (table change.scope) = some e := by
  have hresult := change.result settings
  generalize change.attempt settings = attempt at hresult
  cases hresult with
  | unknown hknown => simp [Change.refusal?, hknown]
  | stopped hknown hmapping => simp [Change.refusal?, hknown, (h.agree _).eq_error_iff.mp hmapping]
  | missing hknown hmapping =>
    obtain ⟨values, hvalues, -⟩ := (h.agree _).values_of_ok hmapping
    simp [Change.refusal?, hknown, hvalues]
  | written hknown hmapping =>
    obtain ⟨values, hvalues, -⟩ := (h.agree _).values_of_ok hmapping
    simp [Change.refusal?, hknown, hvalues]

/-- A change leaves the file of the other scope as it is. -/
theorem stored_of_attempt {changed : Settings} (h : change.attempt settings = .ok changed)
    (hne : scope ≠ change.scope) : changed.stored scope = settings.stored scope := by
  have hresult := change.result settings
  rw [h] at hresult
  cases hresult with
  | missing => rfl
  | written => exact stored_withText_of_ne settings hne _

/-- A file at which the program stops is left as it is, whatever is changed. -/
theorem stored_after_of_stops {cause : Fatal} (h : settings.mappingAt scope = .error cause) :
    (change.after settings).stored scope = settings.stored scope := by
  have hresult := change.result settings
  rw [Change.after]
  generalize change.attempt settings = attempt at hresult
  cases hresult with
  | unknown => rfl
  | stopped => rfl
  | missing => rfl
  | written hknown hmapping =>
    refine stored_withText_of_ne settings (fun hscope => ?_) _
    rw [← hscope, h] at hmapping
    simp at hmapping

theorem stored_afterAll_of_stops {cause : Fatal} (h : settings.mappingAt scope = .error cause)
    (changes : List Change) :
    (settings.afterAll changes).stored scope = settings.stored scope := by
  induction changes generalizing settings with
  | nil => rfl
  | cons change rest ih =>
    have hstored : (change.after settings).stored scope = settings.stored scope :=
      stored_after_of_stops h
    have hstops : (change.after settings).mappingAt scope = .error cause := by
      rw [mappingAt, hstored, ← h, mappingAt]
    exact (ih hstops).trans hstored

/-- Removing a key that has no value leaves both files as they are. -/
theorem Follows.attempt_of_missing (h : Follows kind settings table) (hvalue : change.value? = none)
    {values : Scalar → Option Yaml} (hvalues : table change.scope = .ok values)
    (hmissing : values (.str change.key) = none) : change.attempt settings = .ok settings := by
  obtain ⟨m, hmapping, hsame⟩ := (h.agree _).mapping_of_ok hvalues
  have hnone : m.get? (.str change.key) = none := (hsame (.str change.key)).eq_none_iff.mpr hmissing
  rw [Change.attempt, hvalue]
  simp [remove, hmapping, hnone]

/-! ### The settings in force -/

/-- A value that is put over another replaces it unless both are mappings. -/
theorem overlayValue_of_not_mappings {before : Option Yaml} {value : Yaml}
    (h : (isMapping (some value) && isMapping before) = false) : overlayValue before value = value := by
  cases value with
  | map entries =>
    have hbefore : before.bind Yaml.entries? = none := by simpa [isMapping, Yaml.entries?] using h
    rw [overlayValue, hbefore]
  | shared place inner =>
    rw [overlayValue, if_neg]
    simpa [isMapping, Yaml.entries?] using h
  | _ => rfl

/-- The value of a key in a mapping put over another: what its own value is put over, or else what was
there. -/
theorem get?_overlay (base : Mapping) {upper : Mapping} (h : upper.DistinctKeys) (key : Scalar) :
    (overlay base upper).get? key
      = match upper.get? key with
        | some value => some (overlayValue (base.get? key) value)
        | none => base.get? key := by
  induction upper generalizing base with
  | nil => simp [overlay]
  | cons entry rest ih =>
    obtain ⟨k, v⟩ := entry
    obtain ⟨hfresh, hrest⟩ := List.nodup_cons.mp h
    rw [overlay, ih _ hrest, Mapping.get?]
    by_cases hkey : k.key = key.key
    · have hnone : Mapping.get? key rest = none := Mapping.get?_eq_none_iff.mpr (hkey ▸ hfresh)
      rw [if_pos hkey, hnone, ← Mapping.get?_congr hkey, ← Mapping.get?_congr hkey base]
      exact Mapping.get?_put_self k _ base
    · rw [if_neg hkey, Mapping.get?_put_of_ne (Ne.symm hkey)]

/-- Where not both mappings have a mapping for a key, the value in the upper one wins. -/
theorem get?_overlay_of_not_mappings (base : Mapping) {upper : Mapping} (h : upper.DistinctKeys)
    {key : Scalar} (hkey : (isMapping (upper.get? key) && isMapping (base.get? key)) = false) :
    (overlay base upper).get? key = (upper.get? key).or (base.get? key) := by
  rw [get?_overlay base h]
  cases hvalue : upper.get? key with
  | none => rfl
  | some value => exact congrArg some (overlayValue_of_not_mappings (hvalue ▸ hkey))

theorem get?_overlay_nil {upper : Mapping} (h : upper.DistinctKeys) (key : Scalar) :
    (overlay [] upper).get? key = upper.get? key := by
  have hkey : (isMapping (upper.get? key) && isMapping (Mapping.get? key [])) = false :=
    Bool.and_false _
  rw [get?_overlay_of_not_mappings [] h hkey, Mapping.get?_nil, Option.or_none]

/-- The mapping that is in force is that of the package over that of the user. -/
theorem value_merged (settings : Settings) :
    settings.merged.value
      = match settings.mappingAt .global, settings.mappingAt .project with
        | .ok global, .ok project => .ok (overlay (overlay [] global) project)
        | .ok _, .error cause => .error cause
        | .error cause, _ => .error cause := by
  rw [merged, mappingAt, mappingAt, stored, stored]
  cases settings.global.reading <;> cases settings.project.reading <;> rfl

/-- Whether a mapping is the one in force where the scopes have some values: unless the program stops, at
the file of the user first, every key has the value of the package or else that of the user. Of a key that
has a mapping in both scopes nothing is said. -/
structure InForce (found : Except Fatal Mapping) (table : Table) : Prop where
  stops_at_global : ∀ cause, table .global = .error cause → found = .error cause
  stops_at_project : ∀ global cause, table .global = .ok global → table .project = .error cause →
    found = .error cause
  values : ∀ global project, table .global = .ok global → table .project = .ok project →
    ∃ m, found = .ok m ∧ ∀ key, (isMapping (project key) && isMapping (global key)) = false →
      SameOrNone (m.get? key) ((project key).or (global key))

/-- The settings in force are found in the table that the files follow. -/
theorem Follows.inForce (h : Follows kind settings table) : InForce settings.merged.value table := by
  refine ⟨fun cause hglobal => ?_, fun globals cause hglobals hproject => ?_,
    fun globals projects hglobals hprojects => ?_⟩
  · rw [value_merged, (h.agree _).eq_error_iff.mpr hglobal]
  · obtain ⟨global, hglobal, -⟩ := (h.agree _).mapping_of_ok hglobals
    rw [value_merged, hglobal, (h.agree _).eq_error_iff.mpr hproject]
  · obtain ⟨global, hglobal, hsame⟩ := (h.agree _).mapping_of_ok hglobals
    obtain ⟨project, hproject, hsame'⟩ := (h.agree _).mapping_of_ok hprojects
    rw [value_merged, hglobal, hproject]
    refine ⟨_, rfl, fun key hkey => ?_⟩
    have hbase := get?_overlay_nil (distinctKeys_of_mappingAt hglobal) key
    have hlower : SameOrNone (global.get? key) (globals key) := hsame key
    have hupper : SameOrNone (project.get? key) (projects key) := hsame' key
    rw [← hupper.isMapping_eq, ← hlower.isMapping_eq, ← hbase] at hkey
    rw [get?_overlay_of_not_mappings _ (distinctKeys_of_mappingAt hproject) hkey, hbase]
    exact hupper.or hlower

/-! ### Runs -/

/-- A month that does not exist is no matter of form. -/
theorem read_impossible_month :
    Yaml.read "since: 2024-13-45\n" = .error (.calendar .month) := by
  have hscan : Yaml.Token.scan "since: 2024-13-45\n"
      = .ok [.blockMappingStart, .key, .scalar "since" true, .value, .scalar "2024-13-45" true,
          .blockEnd, .streamEnd] := by
    decide +kernel
  have hdocument : Yaml.Document.ofTokens?
        [.blockMappingStart, .key, .scalar "since" true, .value, .scalar "2024-13-45" true,
          .blockEnd, .streamEnd]
      = some (some ⟨.default, .map {} [(.scalar {} "since" true, .scalar {} "2024-13-45" true)]⟩) :=
    rfl
  have hkey : Yaml.Tag.ofPlain "since" = .str := by decide +kernel
  have htime : Yaml.Tag.ofPlain "2024-13-45" = .time := by decide +kernel
  have hpart : Yaml.Part.ofDocument?
        ⟨.default, .map {} [(.scalar {} "since" true, .scalar {} "2024-13-45" true)]⟩
      = some (.map .map true [] [(.scalar .str "since", .scalar .time "2024-13-45")]) := by
    simp only [Yaml.Part.ofDocument?, Yaml.Part.ofNode?, Yaml.Part.ofEntries?, Yaml.Part.tagOf?,
      Yaml.Part.begin?, Yaml.Part.finished, if_true, hkey, htime]
    rfl
  have hdate : Scalar.ofText .time "2024-13-45" = .error (.calendar .month) := by decide +kernel
  have hvalue : (Yaml.Part.map .map true []
      [(.scalar .str "since", .scalar .time "2024-13-45")]).value = .error ⟨1, .calendar .month⟩ := by
    simp only [Yaml.Part.value, Yaml.Part.entryValues, Yaml.Part.isScalar, Yaml.Part.bare,
      Yaml.Part.scalarValue, hdate]
    rfl
  simp only [Yaml.read, hscan, hdocument, hpart, Yaml.orMalformed, bind, Except.bind, hvalue]
  rfl

/-- Settings whose file in the package names a month that does not exist. -/
def impossibleMonth : Settings := { project := .text "since: 2024-13-45\n" }

/-- Changes in both scopes, of which one has a key that is not known. -/
def mixedChanges : List Change :=
  [⟨.project, "strict", some (.scalar (.bool true))⟩,
    ⟨.global, "level", some (.scalar (.str "error"))⟩, ⟨.global, "colour", some (.scalar .null)⟩,
    ⟨.global, "strict", some (.scalar (.bool true))⟩, ⟨.global, "level", none⟩]

theorem ofKind_mixedChanges : ∀ change ∈ mixedChanges, change.OfKind Settable := by
  simp only [mixedChanges, List.forall_mem_cons]
  refine ⟨?_, ?_, ?_, ?_, ?_, fun _ h => absurd h List.not_mem_nil⟩
  · rintro - value ⟨⟩
    exact .strict true
  · rintro - value ⟨⟩
    exact .level .error
  · intro hknown
    exact absurd hknown (by decide)
  · rintro - value ⟨⟩
    exact .strict true
  · rintro - value ⟨⟩

theorem table_project :
    impossibleMonth.table .project = .error (.impossible (.calendar .month)) := by
  change (Stored.text "since: 2024-13-45\n").values = _
  rw [Stored.values, read_impossible_month]

theorem ofKind_impossibleMonth : impossibleMonth.OfKind Settable := by
  have hproject : impossibleMonth.mappingAt .project = .error (.impossible (.calendar .month)) :=
    (agree_values (impossibleMonth.stored .project)).eq_error_iff.mpr table_project
  rintro (_ | _) m hm
  · simp [hproject] at hm
  · obtain rfl := Except.ok.inj hm
    exact fun entry hentry => absurd hentry List.not_mem_nil

theorem recordAll_project :
    impossibleMonth.table.recordAll mixedChanges .project
      = .error (.impossible (.calendar .month)) := by
  simp [Table.recordAll, mixedChanges, Change.record, Change.isKnown, knownKeys, table_project,
    Except.map]

theorem recordAll_global :
    ∃ values, impossibleMonth.table.recordAll mixedChanges .global = .ok values
      ∧ values (.str "level") = none
      ∧ values (.str "strict") = some (.scalar (.bool true)) := by
  have hstart : impossibleMonth.table .global = .ok fun _ => none := rfl
  simp [Table.recordAll, mixedChanges, Change.record, Change.isKnown, knownKeys, hstart, Except.map]

end PackageLint.Settings
