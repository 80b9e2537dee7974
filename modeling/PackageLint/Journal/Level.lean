import PackageLint.Text.Basic
import PackageLint.Text.Quoted

/-!
# Levels of the program's log

Every record in the log of the program has a level, and the log takes in records from a level on. The
level is named by a word; a word that names nothing means the default, but two words name settings of
the log that are no levels, and cannot be used.

## Main definitions

* `Journal.Level`: the levels of records.
* `Journal.NotLevel`: what is named and is no level.
* `Journal.thresholdOf`: the threshold that a text names.
-/

namespace PackageLint.Journal

/-- The level of a record. -/
inductive Level where
  | notSet
  | debug
  | info
  | warning
  | error
  | critical
  deriving DecidableEq, Repr, Inhabited

namespace Level

/-- All levels, the least one first. -/
def all : List Level := [.notSet, .debug, .info, .warning, .error, .critical]

/-- The name of a level. -/
def name : Level → String
  | .notSet => "NOTSET"
  | .debug => "DEBUG"
  | .info => "INFO"
  | .warning => "WARNING"
  | .error => "ERROR"
  | .critical => "CRITICAL"

/-- The weight of a level. -/
def weight : Level → Nat
  | .notSet => 0
  | .debug => 10
  | .info => 20
  | .warning => 30
  | .error => 40
  | .critical => 50

/-- Other names of levels. -/
def otherNames : List (String × Level) := [("WARN", .warning), ("FATAL", .critical)]

/-- The level of a name. -/
def ofName? (name : String) : Option Level :=
  match all.find? fun l => l.name = name with
  | some level => some level
  | none => otherNames.lookup name

/-- Whether a log with a threshold takes in records of a level. -/
def passes (threshold level : Level) : Bool := threshold.weight ≤ level.weight

end Level

/-- The threshold of a log where none is named. -/
def defaultThreshold : Level := .info

/-- What a word names that is no level. -/
inductive NotLevel where
  /-- The form of a line. -/
  | lineForm
  /-- The styles in which the form of a line can be written. -/
  | styles
  deriving DecidableEq, Repr, Inhabited

namespace NotLevel

/-- The word that names it. -/
def name : NotLevel → String
  | .lineForm => "BASIC_FORMAT"
  | .styles => "_STYLES"

/-- The three styles, each with the form of a line in it. -/
def styleTable : String :=
  "\x7b'%': (<class 'logging.PercentStyle'>, '%(levelname)s:%(name)s:%(message)s'), "
    ++ "'\x7b': (<class 'logging.StrFormatStyle'>, '\x7blevelname\x7d:\x7bname\x7d:\x7bmessage\x7d'), "
    ++ "'$': (<class 'logging.StringTemplateStyle'>, "
    ++ "'$\x7blevelname\x7d:$\x7bname\x7d:$\x7bmessage\x7d')\x7d"

/-- Why it is no threshold. -/
def message : NotLevel → String
  | .lineForm => "Unknown level: " ++ Text.quoted "%(levelname)s:%(name)s:%(message)s"
  | .styles => "Level not an integer or a valid string: " ++ styleTable

end NotLevel

/-- The upper case of a character, as far as names are made of it: that of the ASCII letters, a dotless
`i`, a long `s` and its ligatures with `t`. -/
def upper (c : Char) : List Char :=
  if c = 'ı' then ['I'] else if c = 'ſ' then ['S']
  else if c = '\ufb05' || c = '\ufb06' then ['S', 'T']
  else [Text.upperAscii c]

/-- The threshold that a text names in any case of its letters. A text that names nothing means the
default. -/
def thresholdOf (text : String) : Except NotLevel Level :=
  let name := String.ofList (text.toList.flatMap upper)
  match [NotLevel.lineForm, .styles].find? fun other => other.name = name with
  | some other => .error other
  | none => .ok ((Level.ofName? name).getD defaultThreshold)

end PackageLint.Journal
