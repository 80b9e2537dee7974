import PackageLint.Calendar
import PackageLint.Text.Numeral

/-!
# Why a text has no value

A text that breaks the rules of YAML is malformed. One that keeps them can still name a number, a date
or a truth value that does not exist; such a fault has its own cause.

## Main definitions

* `Yaml.Fault`: the causes.
* `Yaml.Fault.message`: their wording.
-/

namespace PackageLint.Yaml

/-- Why a text has no value. -/
inductive Fault where
  /-- The text is not well-formed, or uses what has no meaning in settings. -/
  | malformed
  /-- A word is no truth value. -/
  | notTruth (word : String)
  /-- A number has nothing after its sign. -/
  | noDigits
  /-- A number does not exist. -/
  | numeral (error : Numeral.Error)
  /-- A place of a number is worth more than any number with a fraction. -/
  | tooLarge
  /-- A text has not the form of a date or time. -/
  | notTime
  /-- A date or time does not exist. -/
  | calendar (error : CalendarError)
  /-- A character does not exist. -/
  | noCharacter
  /-- The number of a character takes more than 31 bits. -/
  | longCharacter
  deriving DecidableEq, Repr, Inhabited

/-- The wording of a fault; that of a malformed text and of an overlong number is left open. -/
def Fault.message : Fault → String
  | .malformed | .longCharacter => ""
  | .notTruth word => Text.quoted word
  | .noDigits => "string index out of range"
  | .numeral error => error.message
  | .tooLarge => "int too large to convert to float"
  | .notTime => "'NoneType' object has no attribute 'groupdict'"
  | .calendar error => error.message
  | .noCharacter => "chr() arg not in range(0x110000)"

end PackageLint.Yaml
