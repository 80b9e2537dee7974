import PackageLint.Diagnostic.Severity
import PackageLint.Settings.Basic

/-!
# The commands

The program lints packages and manages settings. Each command has options and arguments, and a group
has commands of its own.

## Main definitions

* `Command.Param`: the options and arguments of all commands.
* `Command.Name`: the commands.
* `Command.Name.switches`, `Command.Name.arguments`: what a command takes.
-/

namespace PackageLint.Command

/-- An option or argument of some command. -/
inductive Param where
  | level
  | strict
  | json
  | verbose
  | logFile
  | scope
  | pkgDirOption
  | version
  | help
  | pkgDir
  | key
  | value
  deriving DecidableEq, Repr, Inhabited

/-- The choices of a parameter that has them. -/
def Param.choices : Param → List String
  | .level => Severity.all.map Severity.name
  | .scope => Settings.Scope.all.map Settings.Scope.name
  | .key => Settings.knownKeys
  | _ => []

/-- How a parameter is shown in messages. -/
def Param.label : Param → String
  | .level => "--level"
  | .strict => "--strict"
  | .json => "--json"
  | .verbose => "--verbose"
  | .logFile => "--log-file"
  | .scope => "--scope"
  | .pkgDirOption => "--pkg-dir"
  | .version => "--version"
  | .help => "--help"
  | .pkgDir => "[PKG_DIR]"
  | .key => "\x7blevel|strict\x7d"
  | .value => "VALUE"

/-- Whether an argument has to be given. -/
def Param.isRequired : Param → Bool
  | .key | .value => true
  | _ => false

/-- A way to write an option. -/
structure Switch where
  /-- How it is written. -/
  text : String
  /-- The option. -/
  param : Param
  /-- The truth value it stands for; none when it takes a value. -/
  flag : Option Bool
  deriving Repr

/-- A command or group of commands. -/
inductive Name where
  | root
  | lint
  | config
  | show
  | set
  | unset
  deriving DecidableEq, Repr, Inhabited

namespace Name

/-- The words that call a command. -/
def path : Name → String
  | .root => "cli"
  | .lint => "cli lint"
  | .config => "cli config"
  | .show => "cli config show"
  | .set => "cli config set"
  | .unset => "cli config unset"

/-- The commands of a group, by the word that calls them. -/
def commands : Name → List (String × Name)
  | .root => [("config", .config), ("lint", .lint)]
  | .config => [("set", .set), ("show", .show), ("unset", .unset)]
  | _ => []

/-- Whether commands come after the options. -/
def isGroup (name : Name) : Bool := !name.commands.isEmpty

/-- The ways to ask for help. -/
def helpSwitch : Switch := ⟨"--help", .help, some true⟩

/-- The options that say where a setting is kept. -/
def placeSwitches : List Switch := [⟨"--scope", .scope, none⟩, ⟨"--pkg-dir", .pkgDirOption, none⟩]

/-- The options of a command. -/
def switches : Name → List Switch
  | .root => [⟨"--version", .version, some true⟩, helpSwitch]
  | .lint =>
    [⟨"--level", .level, none⟩, ⟨"--strict", .strict, some true⟩,
     ⟨"--no-strict", .strict, some false⟩, ⟨"--json", .json, some true⟩,
     ⟨"--verbose", .verbose, some true⟩, ⟨"-v", .verbose, some true⟩,
     ⟨"--log-file", .logFile, none⟩, helpSwitch]
  | .config | .show => [helpSwitch]
  | .set | .unset => placeSwitches ++ [helpSwitch]

/-- The arguments of a command, in order. -/
def arguments : Name → List Param
  | .root | .config => []
  | .lint | .show => [.pkgDir]
  | .set => [.key, .value]
  | .unset => [.key]

/-- All parameters of a command that are checked, in the order of their declaration. -/
def params (name : Name) : List Param :=
  name.arguments ++ (name.switches.map Switch.param).eraseDups

/-- The line that shows how a command is used. -/
def usage (name : Name) : String :=
  "Usage: " ++ name.path ++ " " ++ match name with
    | .root => "[OPTIONS] COMMAND [ARGS]..."
    | .config => "[OPTIONS] [COMMAND] [ARGS]..."
    | .lint | .show => "[OPTIONS] [PKG_DIR]"
    | .set => "[OPTIONS] \x7blevel|strict\x7d VALUE"
    | .unset => "[OPTIONS] \x7blevel|strict\x7d"

end Name

end PackageLint.Command
