import PackageLint.Settings.Basic
import PackageLint.Yaml.Literal

/-!
# The settings in force

The mappings of both files are merged, the one of the package over the one of the user; where both
have a mapping for a key, these are merged in turn. Every view of the settings reads the files anew
and repeats the warnings about them.

## Main definitions

* `Settings.Warning`: what is worth a warning.
* `Settings.overlay`: one mapping over another.
* `Settings.merged`, `Settings.level`, `Settings.strict`: the views.

## Main statements

* `Settings.get?_overlay_of_get?_eq_none`: a key that the upper mapping lacks keeps its value.
-/

namespace PackageLint.Settings

/-! ### Merging -/

mutual

/-- The entries of one mapping put over another. -/
def overlay (base : Yaml.Mapping) : List (Yaml.Scalar × Yaml) → Yaml.Mapping
  | [] => base
  | (key, value) :: rest => overlay (base.put key (overlayValue (base.get? key) value)) rest

/-- A value put over what was there: mappings are merged, all else is replaced. -/
def overlayValue (before : Option Yaml) : Yaml → Yaml
  | .map entries =>
    match before.bind Yaml.entries? with
    | some base => .map (overlay base entries)
    | none => .map entries
  | .shared place value =>
    if value.entries?.isSome && (before.bind Yaml.entries?).isSome then overlayValue before value
    else .shared place value
  | value => value

end

/-- A key that the upper mapping lacks keeps its value. -/
theorem get?_overlay_of_get?_eq_none {key : Yaml.Scalar} (base upper : Yaml.Mapping)
    (h : upper.get? key = none) : (overlay base upper).get? key = base.get? key := by
  induction upper generalizing base with
  | nil => simp [overlay]
  | cons entry rest ih =>
    obtain ⟨k, v⟩ := entry
    by_cases hk : k.key = key.key
    · simp [Yaml.Mapping.get?, hk] at h
    · have hr : Yaml.Mapping.get? key rest = none := by
        simpa [Yaml.Mapping.get?, hk] using h
      rw [overlay, ih _ hr]
      exact Yaml.Mapping.get?_put_of_ne (Ne.symm hk) _ _

/-! ### Warnings -/

/-- What is worth a warning. -/
inductive Warning where
  /-- A file is not well-formed. -/
  | malformed (scope : Scope)
  /-- A file holds something else than a mapping. -/
  | notMapping (scope : Scope)
  /-- The level is no severity. -/
  | unknownLevel (value : Yaml)
  deriving Repr

/-- The wording of a warning, given the paths of the files. -/
def Warning.text (path : Scope → String) : Warning → String
  | .malformed scope => "Skipping malformed settings file " ++ path scope
  | .notMapping scope =>
    "Skipping settings file " ++ path scope ++ ": top level must be a mapping"
  | .unknownLevel value => "Ignoring unknown level setting: " ++ value.literal

/-- A view of the settings, with the warnings that came up; the warnings are there also when the program
stops at a file. -/
structure Viewed (α : Type) where
  /-- What was seen. -/
  value : Except Fatal α
  /-- The warnings, in order. -/
  warnings : List Warning
  deriving Repr

/-- What is to be said about the reading of a file. -/
def Reading.warnings (scope : Scope) : Reading → List Warning
  | .nothing | .entries _ => []
  | .malformed => [.malformed scope]
  | .notMapping => [.notMapping scope]

/-! ### Views -/

/-- The mapping that a reading counts as, with what is to be said about it. -/
def Viewed.ofReading (scope : Scope) : Except Fatal Reading → Viewed Yaml.Mapping
  | .ok reading => ⟨.ok reading.mapping, reading.warnings scope⟩
  | .error cause => ⟨.error cause, []⟩

/-- What is seen in one view and then in another, which is looked at only if nothing stopped the first
one. -/
def Viewed.andThen {α β γ : Type} (first : Viewed α) (second : Viewed β) (f : α → β → γ) :
    Viewed γ :=
  match first.value with
  | .ok a => ⟨second.value.map (f a), first.warnings ++ second.warnings⟩
  | .error cause => ⟨.error cause, first.warnings⟩

/-- The settings of both files. -/
def merged (settings : Settings) : Viewed Yaml.Mapping :=
  (Viewed.ofReading .global settings.global.reading).andThen
    (Viewed.ofReading .project settings.project.reading)
    fun global project => overlay (overlay [] global) project

/-- The severity that a value names. -/
def severity? : Yaml → Option Severity
  | .scalar (.str name) => Severity.ofName? name
  | _ => none

/-- Whether a value is null. -/
def isNull : Yaml → Bool
  | .scalar .null => true
  | _ => false

/-- The level that the merged settings name, with what is to be said about it. -/
def levelIn (entries : Yaml.Mapping) : Option Severity × List Warning :=
  match entries.get? (.str "level") with
  | none => (none, [])
  | some value =>
    if isNull value then (none, [])
    else
      match severity? value with
      | some severity => (some severity, [])
      | none => (none, [.unknownLevel value])

/-- The level in the settings. One that is no severity is passed over. -/
def level (settings : Settings) : Viewed (Option Severity) :=
  match settings.merged with
  | ⟨.ok entries, warnings⟩ => ⟨.ok (levelIn entries).1, warnings ++ (levelIn entries).2⟩
  | ⟨.error cause, warnings⟩ => ⟨.error cause, warnings⟩

/-- The strict flag that the merged settings hold. Anything but a truth value is passed over. -/
def strictIn (entries : Yaml.Mapping) : Option Bool :=
  match entries.get? (.str "strict") with
  | some (.scalar (.bool b)) => some b
  | _ => none

/-- The strict flag in the settings. -/
def strict (settings : Settings) : Viewed (Option Bool) :=
  { settings.merged with value := settings.merged.value.map strictIn }

end PackageLint.Settings
