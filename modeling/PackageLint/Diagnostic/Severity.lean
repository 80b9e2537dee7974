/-!
# Severities

A finding is an error, a warning or a suggestion. A level of reporting is given by a severity and
takes in everything at least as severe.

## Main definitions

* `Severity`: the severities.
* `Severity.atLeast`: whether a severity is at or above a level.
* `Severity.escalated`: the severity in strict mode.
-/

namespace PackageLint

/-- How severe a finding is. -/
inductive Severity where
  | error
  | warning
  | suggestion
  deriving DecidableEq, Repr, Inhabited

namespace Severity

/-- All severities, the most severe first. -/
def all : List Severity := [.error, .warning, .suggestion]

/-- The name of a severity. -/
def name : Severity → String
  | .error => "error"
  | .warning => "warning"
  | .suggestion => "suggestion"

/-- The severity of a name. -/
def ofName? (name : String) : Option Severity := all.find? fun s => s.name = name

/-- The weight of a severity; a higher one is more severe. -/
def weight : Severity → Nat
  | .error => 2
  | .warning => 1
  | .suggestion => 0

/-- Whether a severity is at or above a level. -/
def atLeast (level severity : Severity) : Bool := level.weight ≤ severity.weight

/-- The severity in strict mode, where warnings are errors. -/
def escalated : Severity → Severity
  | .warning => .error
  | s => s

end Severity

end PackageLint
