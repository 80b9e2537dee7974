import PackageLint.Failure
import PackageLint.Journal.Level
import PackageLint.Journal.Template
import PackageLint.Json.Printer

/-!
# Records of the program's log

The log of the program is a file with a JSON object per line. A record names its level, the form of
the log, who wrote it and what it says, and carries further values. Some names are taken by the log
itself: a further value of such a name cannot be logged, or is not shown.

## Main definitions

* `Journal.Event`: what is to be logged.
* `Journal.Event.clash?`: a further value whose name is taken.
* `Journal.Event.record?`: the record of an event.
* `Journal.entries`: the records of a log with a threshold.
-/

namespace PackageLint.Journal

/-- What is to be logged. -/
structure Event where
  /-- The level. -/
  level : Level
  /-- Who logs it. -/
  logger : String
  /-- The template of the message. -/
  template : String
  /-- The values of the template. -/
  args : List Arg := []
  /-- The failure that is logged with it. -/
  failure : Option Failure := none
  /-- Further values. -/
  extra : Json.Fields := []
  deriving Repr

namespace Event

/-- The names that a record uses itself. -/
def takenNames : List String :=
  ["message", "asctime", "name", "msg", "args", "levelname", "levelno", "pathname", "filename",
   "module", "exc_info", "exc_text", "stack_info", "lineno", "funcName", "created", "msecs",
   "relativeCreated", "thread", "threadName", "processName", "process"]

/-- The names of further values that are not shown. -/
def hiddenNames : List String := ["taskName"]

/-- A further value whose name is taken. An event with one cannot be logged. -/
def clash? (event : Event) : Option String :=
  (Assoc.keys event.extra).find? takenNames.contains

/-- The wording of a clash. -/
def clashMessage (name : String) : String :=
  "Attempt to overwrite " ++ Text.quoted name ++ " in LogRecord"

/-- The form of the log. -/
def form : Json := .obj [("name", .str "entrylint.log"), ("ver", .str "1.0.0")]

/-- Adds further values to the fields of a record, which keep their own. -/
def addExtra (fields extra : Json.Fields) : Json.Fields :=
  extra.foldl
    (fun fields entry =>
      if hiddenNames.contains entry.1 || Assoc.hasKey entry.1 fields then fields
      else fields ++ [entry])
    fields

/-- The record of an event, with the fields that come first. A message whose template cannot be
filled makes none. -/
def record? (event : Event) (first : Json.Fields := []) : Option Json :=
  (fill? event.template event.args).map fun message =>
    let fields : Json.Fields :=
      first ++ [("lvl", .str event.level.name), ("schema", form), ("logger", .str event.logger),
        ("message", .str message)]
    let error : Json.Fields :=
      match event.failure with
      | some failure => [("error", .str failure.text)]
      | none => []
    .obj (addExtra (fields ++ error) event.extra)

/-- The line of an event in the file of the log. -/
def line? (event : Event) (first : Json.Fields := []) : Option String :=
  (event.record? first).map fun record => record.write Json.recordForm ++ "\n"

/-- Whether a log with a threshold takes in an event. -/
def passes (threshold : Level) (event : Event) : Bool := threshold.passes event.level

end Event

/-- The threshold before a log is opened. -/
def closedThreshold : Level := .warning

/-- The clashes of events, for those that a threshold lets pass. -/
def clashes (threshold : Level) (events : List Event) : List (Option String) :=
  events.map fun event => if event.passes threshold then event.clash? else none

/-- The records of a log with a threshold, each with the given fields first. -/
def entries (threshold : Level) (events : List Event) (first : Json.Fields := []) : List Json :=
  events.filterMap fun event =>
    if event.passes threshold && event.clash?.isNone then event.record? first else none

end PackageLint.Journal
