import PackageLint.Command.Syntax

/-!
# Help

The help of a command shows how it is used, what it does, its options and, for a group, its commands.
Options and commands are two columns: the second begins after the widest entry of the first, but never
beyond a certain column, and its lines are broken between words.

## Main definitions

* `Command.Name.help`: the help of a command.
-/

namespace PackageLint.Command

/-- The greatest width of help. -/
def helpWidth : Nat := 78

/-- The greatest width of a first column. -/
def firstColumnWidth : Nat := 30

/-- Adds words to lines of at most a width; `line` is the current one. -/
def wrapWords (width : Nat) (line : String) : List String → List String
  | [] => [line]
  | word :: rest =>
    if line = "" then wrapWords width word rest
    else if line.length + 1 + word.length ≤ width then wrapWords width (line ++ " " ++ word) rest
    else line :: wrapWords width word rest

/-- A text as lines of at most a width. -/
def wrapText (width : Nat) (text : String) : List String :=
  wrapWords width "" (Text.splitString ' ' text)

/-- So many spaces. -/
def spaces (count : Nat) : String := String.ofList (List.replicate count ' ')

/-- One row of two columns, the second beginning at a column. -/
def rowLines (column : Nat) (row : String × String) : List String :=
  let lines := wrapText (helpWidth - column) row.2
  let first := "  " ++ row.1
  if row.1.length + 2 ≤ column - 2 then
    match lines with
    | [] => [first]
    | line :: rest => (first ++ spaces (column - first.length) ++ line) :: rest.map (spaces column ++ ·)
  else first :: lines.map (spaces column ++ ·)

/-- Rows of two columns under a heading. -/
def helpSection (heading : String) (rows : List (String × String)) : List String :=
  if rows.isEmpty then []
  else
    let widest := rows.foldl (fun size row => max size row.1.length) 0
    let column := min widest firstColumnWidth + 4
    ["", heading ++ ":"] ++ rows.flatMap (rowLines column)

namespace Name

/-- What a command does, in paragraphs. -/
def about : Name → List String
  | .root => ["entrylint - check that package.json entry points resolve consistently."]
  | .lint => ["Lint the package.json in PKG_DIR (default: current directory)."]
  | .config =>
    ["Manage entrylint settings.",
     "Settings are read from ~/.entrylint/settings.yaml (global) and "
       ++ "<package>/.entrylint.yaml (project). Project settings win."]
  | .show => ["Show merged settings for a package."]
  | .set => ["Store a setting."]
  | .unset => ["Clear a setting so the other scope or the built-in default applies."]

/-- The row of an option that asks for help. -/
def helpRow : String × String := ("--help", "Show this message and exit.")

/-- The rows of options that say where a setting is kept. -/
def placeRows (scopeText : String) : List (String × String) :=
  [("--scope [project|global]", scopeText),
   ("--pkg-dir DIRECTORY", "Package directory for project scope"), helpRow]

/-- The options of a command with what they do. -/
def optionRows : Name → List (String × String)
  | .root => [("--version", "Show the version and exit."), helpRow]
  | .lint =>
    [("--level [error|warning|suggestion]", "Minimum severity to report (default: suggestion)"),
     ("--strict / --no-strict", "Report warnings as errors"),
     ("--json", "Print diagnostics as JSON"),
     ("-v, --verbose", "Show diagnostic arguments"),
     ("--log-file FILE", "Write JSONL logs to this file"), helpRow]
  | .config | .show => [helpRow]
  | .set => placeRows "Where to store the setting"
  | .unset => placeRows "Scope to clear the setting from"

/-- The commands of a group with what they do. -/
def commandRows (name : Name) : List (String × String) :=
  name.commands.map fun (word, command) => (word, command.about.headD "")

/-- The help of a command, without a line end. -/
def help (name : Name) : String :=
  Text.join "\n"
    ([name.usage]
      ++ name.about.flatMap (fun paragraph =>
        "" :: (wrapText (helpWidth - 2) paragraph).map ("  " ++ ·))
      ++ helpSection "Options" name.optionRows
      ++ helpSection "Commands" name.commandRows)

end Name

end PackageLint.Command
