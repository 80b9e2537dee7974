import PackageLint.Diagnostic.Severity
import PackageLint.Text.Utf8
import PackageLint.Yaml.Reader
import PackageLint.Yaml.Writer

/-!
# Settings

Settings supply defaults for options. They are kept in two files: one of the user, and one of the
package, which wins. Reading a file that has no usable mapping counts as reading an empty one; only a
file that is no text at all, or names a number or date that does not exist, stops the program.

Each change reads one file, changes one key of its mapping and writes the file anew.

## Main definitions

* `Settings.Scope`: the two files.
* `Settings.Stored`, `Settings.Reading`: what a file holds, and what is read from it.
* `Settings`: the contents of both files.
* `Settings.set`, `Settings.remove`: changes of one key.

## Main statements

* `Settings.stored_withText_of_ne`: a change of one file leaves the other alone.
-/

namespace PackageLint

namespace Settings

/-- Where a setting is kept. -/
inductive Scope where
  /-- In the package; wins over the other. -/
  | project
  /-- With the user. -/
  | global
  deriving DecidableEq, Repr, Inhabited

namespace Scope

/-- Both scopes, the winning one first. -/
def all : List Scope := [.project, .global]

/-- The name of a scope. -/
def name : Scope → String
  | .project => "project"
  | .global => "global"

/-- The scope of a name. -/
def ofName? (name : String) : Option Scope := all.find? fun s => s.name = name

end Scope

/-- What a settings file holds. -/
inductive Stored where
  /-- There is no file. -/
  | absent
  /-- There cannot be a file, for a name in its path is too long to look for. -/
  | nameTooLong
  /-- There is something that cannot be opened as a file. -/
  | unreadable
  /-- The bytes of the file are no text. -/
  | undecodable
  /-- The text of the file. -/
  | text (content : String)
  deriving DecidableEq, Repr, Inhabited

/-- What a file with some bytes holds. -/
def Stored.ofBytes (bytes : List UInt8) : Stored :=
  match Utf8.readStrictly? bytes with
  | some content => .text content
  | none => .undecodable

/-- The text of a file that has one. -/
def Stored.text? : Stored → Option String
  | .text content => some content
  | _ => none

/-- Why the program stops at a settings file. -/
inductive Fatal where
  /-- A name in its path is too long to look for. -/
  | nameTooLong
  /-- Its bytes are no text. -/
  | undecodable
  /-- A number, a date or the like in it does not exist. -/
  | impossible (fault : Yaml.Fault)
  deriving DecidableEq, Repr

/-- What is read from a settings file. -/
inductive Reading where
  /-- There is nothing to read. -/
  | nothing
  /-- The entries of its mapping; a text whose value is empty has none. -/
  | entries (mapping : Yaml.Mapping)
  /-- The text is not well-formed. -/
  | malformed
  /-- The value is something else than a mapping. -/
  | notMapping
  deriving Repr

/-- What the value of a text is as settings. -/
def Reading.ofValue (value : Yaml) : Reading :=
  if value.truthy then
    match value.entries? with
    | some found => .entries found
    | none => .notMapping
  else .entries []

/-- What is read from a text. -/
def Reading.ofText (content : String) : Except Fatal Reading :=
  match Yaml.read content with
  | .ok value => .ok (.ofValue value)
  | .error .malformed => .ok .malformed
  | .error fault => .error (.impossible fault)

/-- The mapping that a reading counts as. -/
def Reading.mapping : Reading → Yaml.Mapping
  | .entries mapping => mapping
  | _ => []

/-- What is read from a file. -/
def Stored.reading : Stored → Except Fatal Reading
  | .absent => .ok .nothing
  | .nameTooLong => .error .nameTooLong
  | .unreadable => .ok .malformed
  | .undecodable => .error .undecodable
  | .text content => Reading.ofText content

end Settings

/-- The contents of both settings files. -/
structure Settings where
  /-- The file of the package. -/
  project : Settings.Stored := .absent
  /-- The file of the user. -/
  global : Settings.Stored := .absent
  deriving DecidableEq, Repr, Inhabited

namespace Settings

/-- The content of the file of a scope. -/
def stored (settings : Settings) : Scope → Stored
  | .project => settings.project
  | .global => settings.global

/-- The settings with another text in the file of a scope. -/
def withText (settings : Settings) (scope : Scope) (content : String) : Settings :=
  match scope with
  | .project => { settings with project := .text content }
  | .global => { settings with global := .text content }

@[simp] theorem stored_withText_self (settings : Settings) (scope : Scope) (content : String) :
    (settings.withText scope content).stored scope = .text content := by
  cases scope <;> rfl

/-- A change of one file leaves the other alone. -/
theorem stored_withText_of_ne (settings : Settings) {scope other : Scope} (h : other ≠ scope)
    (content : String) : (settings.withText scope content).stored other = settings.stored other := by
  cases scope <;> cases other <;> first | rfl | exact absurd rfl h

/-! ### Changes -/

/-- The settings that can be set. -/
def knownKeys : List String := ["level", "strict"]

/-- Why a setting is not changed. -/
inductive ChangeError where
  /-- There is no such setting. -/
  | unknownKey (key : String)
  /-- The program stops at the file. -/
  | fatal (cause : Fatal)
  deriving DecidableEq, Repr

/-- The wording of an unknown setting. -/
def unknownKeyMessage (key : String) : String := "Unknown setting: " ++ key

/-- The mapping in the file of a scope. -/
def mappingAt (settings : Settings) (scope : Scope) : Except Fatal Yaml.Mapping :=
  ((settings.stored scope).reading).map Reading.mapping

/-- Sets a key in a scope. -/
def set (settings : Settings) (scope : Scope) (key : String) (value : Yaml) :
    Except ChangeError Settings :=
  if knownKeys.contains key then
    match settings.mappingAt scope with
    | .ok entries => .ok (settings.withText scope (Yaml.write (entries.put (.str key) value)))
    | .error cause => .error (.fatal cause)
  else .error (.unknownKey key)

/-- Removes a key from a scope. A file that does not have the key is not touched. -/
def remove (settings : Settings) (scope : Scope) (key : String) : Except ChangeError Settings :=
  match settings.mappingAt scope with
  | .ok entries =>
    if (entries.get? (.str key)).isSome then
      .ok (settings.withText scope (Yaml.write (entries.erase (.str key))))
    else .ok settings
  | .error cause => .error (.fatal cause)

end Settings

end PackageLint
