import PackageLint.Diagnostic.Arg
import PackageLint.Diagnostic.Code
import PackageLint.Diagnostic.Severity
import PackageLint.Json.Printer

/-!
# Findings

A finding names its code, its severity and the place in the manifest it is about, and carries the
values of its message. Findings are ordered by code, place and severity, so that a report does not
depend on the order in which checks ran.

## Main definitions

* `Location`: a place in a manifest.
* `Diagnostic`: a finding.
* `Diagnostic.sort`: findings in their order.
* `Diagnostic.sortFully`: the same order with ties settled by the arguments.
-/

namespace PackageLint

/-- The keys that lead to a value of the manifest. -/
abbrev Location := List String

/-- A finding. -/
structure Diagnostic where
  /-- What was found. -/
  code : Code
  /-- How severe it is. -/
  severity : Severity
  /-- The place it is about. -/
  location : Location
  /-- The values of its message. -/
  args : Args := []
  deriving Repr, Inhabited, BEq

namespace Diagnostic

/-- The order of texts by their characters. -/
def compareText (a b : String) : Ordering := compareOfLessAndEq a b

/-- The order of places: by the first key that differs, a place before those within it. -/
def compareLocation : Location → Location → Ordering
  | [], [] => .eq
  | [], _ :: _ => .lt
  | _ :: _, [] => .gt
  | a :: as, b :: bs => (compareText a b).then (compareLocation as bs)

/-- The order of findings by code, place and severity. -/
def compare (a b : Diagnostic) : Ordering :=
  (compareText a.code.name b.code.name).then
    ((compareLocation a.location b.location).then
      (compareText a.severity.name b.severity.name))

/-- The order of findings in which the text of the arguments settles ties. -/
def compareFully (a b : Diagnostic) : Ordering :=
  (compare a b).then
    (compareText (a.args.toJson.write Json.canonicalForm) (b.args.toJson.write Json.canonicalForm))

/-- The findings in order; those that compare equal stay as they came. -/
def sort (findings : List Diagnostic) : List Diagnostic :=
  findings.mergeSort fun a b => (compare a b).isLE

/-- The findings in the order that settles ties by the arguments. -/
def sortFully (findings : List Diagnostic) : List Diagnostic :=
  findings.mergeSort fun a b => (compareFully a b).isLE

/-- The number of findings of a severity. -/
def count (severity : Severity) (findings : List Diagnostic) : Nat :=
  findings.countP fun d => d.severity = severity

end Diagnostic

end PackageLint
