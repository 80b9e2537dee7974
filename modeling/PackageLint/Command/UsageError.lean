import PackageLint.Command.Syntax
import PackageLint.Text.Quoted

/-!
# Errors of use

A command line that makes no sense is answered with the reason on the error output, in most cases
after a reminder of how the command is used, and with exit code 2.

## Main definitions

* `Command.UsageError`: the reasons.
* `Command.UsageError.text`: what is printed.
-/

namespace PackageLint.Command

/-- Why a command line makes no sense. -/
inductive UsageError where
  /-- There is no such option; some may be meant. -/
  | noSuchOption (text : String) (similar : List String)
  /-- There is no such command; some may be meant. -/
  | noSuchCommand (word : String) (similar : List String)
  /-- A group is called without a command. -/
  | missingCommand
  /-- An option lacks its value. -/
  | needsValue (text : String)
  /-- An option has a value and takes none. -/
  | takesNoValue (text : String)
  /-- An argument is missing. -/
  | missingArgument (param : Param)
  /-- A value is none of the choices. -/
  | badChoice (param : Param) (value : String)
  /-- A directory is asked for and the path is a file. -/
  | isFile (param : Param) (path : String)
  /-- A file is asked for and the path is a directory. -/
  | isDirectory (param : Param) (path : String)
  /-- There are more arguments than the command takes. -/
  | extraArguments (arguments : List String)
  deriving DecidableEq, Repr

namespace UsageError

/-- The question that names what may be meant. -/
def suggestion : List String → String
  | [] => ""
  | [one] => " Did you mean " ++ Text.quoted one ++ "?"
  | several => " (Did you mean one of: " ++ Text.join ", " (several.map Text.quoted) ++ "?)"

/-- The choices of a parameter. -/
def choiceList (param : Param) : String := Text.join ", " (param.choices.map Text.quoted)

/-- The beginning of the wording for a value that does not fit. -/
def invalidValue (param : Param) : String := "Invalid value for '" ++ param.label ++ "': "

/-- The wording of an error. -/
def message : UsageError → String
  | .noSuchOption text similar => "No such option " ++ Text.quoted text ++ "." ++ suggestion similar
  | .noSuchCommand word similar =>
    "No such command " ++ Text.quoted word ++ "." ++ suggestion similar
  | .missingCommand => "Missing command."
  | .needsValue text => "Option " ++ Text.quoted text ++ " requires an argument."
  | .takesNoValue text => "Option " ++ Text.quoted text ++ " does not take a value."
  | .missingArgument param =>
    "Missing argument '" ++ param.label ++ "'."
      ++ (if param.choices.isEmpty then ""
          else " Choose from:\n\t" ++ Text.join ",\n\t" param.choices)
  | .badChoice param value =>
    invalidValue param ++ Text.quoted value ++ " is not one of " ++ choiceList param ++ "."
  | .isFile param path =>
    invalidValue param ++ "Directory " ++ Text.quoted path ++ " is a file."
  | .isDirectory param path =>
    invalidValue param ++ "File " ++ Text.quoted path ++ " is a directory."
  | .extraArguments arguments =>
    "Got unexpected extra argument" ++ (if arguments.length = 1 then "" else "s") ++ " ("
      ++ Text.join " " arguments ++ ")"

/-- Whether the reminder of the use comes before the reason. -/
def showsUsage : UsageError → Bool
  | .needsValue _ | .takesNoValue _ => false
  | _ => true

/-- The reminder of how a command is used. -/
def reminder (name : Name) : String :=
  name.usage ++ "\nTry '" ++ name.path ++ " --help' for help.\n\n"

/-- What is printed for an error of a command. -/
def text (name : Name) (error : UsageError) : String :=
  (if error.showsUsage then reminder name else "") ++ "Error: " ++ error.message ++ "\n"

end UsageError

end PackageLint.Command
