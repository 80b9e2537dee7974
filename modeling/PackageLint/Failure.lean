import PackageLint.FileTree.Basic
import PackageLint.Text.Numeral
import PackageLint.Text.Quoted

/-!
# Failures of checks

A check that fails is reported in the log of the program and leaves the other checks alone. The
wording of a failure names its kind and quotes its message.

## Main definitions

* `Failure`: the causes.
* `Failure.text`: the wording of a failure.
-/

namespace PackageLint

/-- Why a check failed. -/
inductive Failure where
  /-- A text of digits denotes no integer that is read. -/
  | numeral (error : Numeral.Error)
  /-- A path could not be read or listed. -/
  | unreadable (error : FileError)
  /-- Any other reason, in its own words. -/
  | other (message : String)
  deriving DecidableEq, Repr, Inhabited

namespace Failure

/-- The name of the kind of a failure. -/
def kind : Failure → String
  | .unreadable (.notFound _) => "FileNotFoundError"
  | .unreadable (.isDirectory _) => "IsADirectoryError"
  | .unreadable (.notDirectory _) => "NotADirectoryError"
  | .unreadable (.nameTooLong _) => "OSError"
  | .unreadable (.notPath _) => "ValueError"
  | .numeral _ | .other _ => "ValueError"

/-- The message of a failure. -/
def message : Failure → String
  | .numeral error => error.message
  | .unreadable (.notPath _) => "embedded null byte"
  | .unreadable error => error.path
  | .other message => message

/-- The wording of a failure in the log of the program. -/
def text (failure : Failure) : String := failure.kind ++ "(" ++ Text.quoted failure.message ++ ")"

end Failure

end PackageLint
