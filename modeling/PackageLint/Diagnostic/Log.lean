import PackageLint.Diagnostic.Basic

/-!
# The log of a pass

Checks add findings to a log and never read it. In strict mode all warnings are turned into errors,
once; what is added afterwards keeps its severity. Filtering by level leaves the log as it is.

## Main definitions

* `Log`: the log.
* `Log.add`, `Log.escalate`: its two changes.
* `Log.atLevel`, `Log.sorted`: views of it.
-/

namespace PackageLint

/-- The findings of a pass in the order in which they were added. -/
structure Log where
  /-- The findings. -/
  findings : List Diagnostic := []
  /-- Whether warnings have been turned into errors already. -/
  escalated : Bool := false
  deriving Repr, Inhabited, BEq

namespace Log

/-- The log before any finding. -/
def empty : Log := {}

/-- Adds a finding at the end. -/
def add (log : Log) (finding : Diagnostic) : Log :=
  { log with findings := log.findings ++ [finding] }

/-- Adds findings at the end. -/
def addAll (log : Log) (findings : List Diagnostic) : Log :=
  { log with findings := log.findings ++ findings }

/-- A finding with its severity in strict mode. -/
def escalateOne (d : Diagnostic) : Diagnostic := { d with severity := d.severity.escalated }

/-- Turns all warnings into errors, unless that was done before. -/
def escalate (log : Log) : Log :=
  if log.escalated then log
  else { findings := log.findings.map escalateOne, escalated := true }

/-- The findings at or above a level, in order. -/
def atLevel (log : Log) (level : Severity) : List Diagnostic :=
  log.findings.filter fun d => level.atLeast d.severity

/-- The findings in the order of reports. -/
def sorted (log : Log) : List Diagnostic := Diagnostic.sort log.findings

end Log

end PackageLint
