import PackageLint.Diagnostic.Basic
import PackageLint.Text.Quoted

/-!
# Names that mean nothing

Formats, codes and severities are given by name. A name that is none of them is refused.

## Main definitions

* `NameError`: what a name was taken for.
* `Format.named`, `Code.named`, `Code.scoped`, `Severity.named`: the meaning of a name.
-/

namespace PackageLint

/-- What a name was taken for, in vain. -/
inductive NameError where
  | format (name : String)
  | code (name : String)
  | severity (name : String)
  deriving DecidableEq, Repr

/-- The wording of an error. -/
def NameError.message : NameError → String
  | .format name => Text.quoted name ++ " is not a valid CodeFormat"
  | .code name => Text.quoted name ++ " is not a valid DiagnosticCode"
  | .severity name => Text.quoted name ++ " is not a valid Severity"

/-- The format of a name. -/
def Format.named (name : String) : Except NameError Format :=
  match Format.ofName? name with
  | some format => .ok format
  | none => .error (.format name)

/-- The code of a name. -/
def Code.named (name : String) : Except NameError Code :=
  match Code.ofName? name with
  | some code => .ok code
  | none => .error (.code name)

/-- The code of a rule's name in a field. -/
def Code.scoped (field : EntryField) (rule : String) : Except NameError Code :=
  Code.named (Code.scopedName field rule)

/-- The severity of a name. -/
def Severity.named (name : String) : Except NameError Severity :=
  match Severity.ofName? name with
  | some severity => .ok severity
  | none => .error (.severity name)

end PackageLint
