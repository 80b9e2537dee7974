import PackageLint.Command.UsageError
import PackageLint.Text.Similarity

/-!
# Command lines

The words after the name of a command are its options and arguments. A word that begins with a dash is
an option, unless `--` came before; a long option may carry its value after `=`, and short ones may
share a word. The first word of a group that is no option is its command, and the words after it are
for that command.

## Main definitions

* `Command.Line`: the options and arguments that were given.
* `Command.Line.read`: the line of a list of words.
* `Command.Line.order`: the order in which parameters are checked.
-/

namespace PackageLint.Command

/-- What was given for an option. -/
inductive Given where
  | text (value : String)
  | flag (value : Bool)
  deriving DecidableEq, Repr

/-- The options and arguments that were given. -/
structure Line where
  /-- The options in order, with what was given for them. -/
  options : List (Param × Given) := []
  /-- The other words, in order. -/
  words : List String := []
  deriving Repr

namespace Line

/-! ### Views -/

/-- The text that was given last for an option. -/
def text? (line : Line) (param : Param) : Option String :=
  line.options.reverse.findSome? fun given =>
    match given with
    | (p, .text value) => if p = param then some value else none
    | _ => none

/-- The truth value that was given last for an option. -/
def flag? (line : Line) (param : Param) : Option Bool :=
  line.options.reverse.findSome? fun given =>
    match given with
    | (p, .flag value) => if p = param then some value else none
    | _ => none

/-- The words with the arguments of a command, in order. -/
def arguments (line : Line) (name : Name) : List (Param × String) :=
  name.arguments.zip line.words

/-- What was given for a parameter that takes a text. -/
def value? (line : Line) (name : Name) (param : Param) : Option String :=
  match (line.arguments name).find? fun a => a.1 = param with
  | some (_, word) => some word
  | none => line.text? param

/-- The words that are left over. -/
def extra (line : Line) (name : Name) : List String := line.words.drop name.arguments.length

/-- The order in which parameters are checked: the options as they were given, the arguments, and
then all others. -/
def order (line : Line) (name : Name) : List Param :=
  (line.options.map Prod.fst ++ name.arguments ++ name.params).eraseDups

/-! ### Reading -/

/-- Adds what was given for an option. -/
def give (line : Line) (param : Param) (given : Given) : Line :=
  { line with options := line.options ++ [(param, given)] }

/-- Adds a word that is no option. -/
def addWord (line : Line) (word : String) : Line := { line with words := line.words ++ [word] }

/-- The way of a command to write an option. -/
def switch? (name : Name) (text : String) : Option Switch :=
  name.switches.find? fun s => s.text = text

/-- The long ways of a command to write options. -/
def longSwitches (name : Name) : List String :=
  (name.switches.map Switch.text).filter fun text => Text.hasStart text "--"

/-- Splits a word at its first `=`. -/
def splitValue (word : String) : String × Option String :=
  let cs := word.toList
  let text := cs.takeWhile (· ≠ '=')
  match cs.drop text.length with
  | [] => (word, none)
  | _ :: value => (String.ofList text, some (String.ofList value))

/-- Reads a long option; the words after it may begin with its value. -/
def long (name : Name) (line : Line) (word : String) (rest : List String) :
    Except UsageError (Line × List String) :=
  let (text, value) := splitValue word
  match switch? name text with
  | none => .error (.noSuchOption text (Text.closeTo text (longSwitches name)))
  | some s =>
    match s.flag, value, rest with
    | some flag, none, _ => .ok (line.give s.param (.flag flag), rest)
    | some _, some _, _ => .error (.takesNoValue text)
    | none, some value, _ => .ok (line.give s.param (.text value), rest)
    | none, none, value :: rest => .ok (line.give s.param (.text value), rest)
    | none, none, [] => .error (.needsValue text)

/-- Reads short options that share a word. -/
def short (name : Name) (line : Line) : List Char → Except UsageError Line
  | [] => .ok line
  | c :: rest =>
    let text := String.ofList ['-', c]
    match switch? name text with
    | some s => short name (line.give s.param (.flag (s.flag.getD true))) rest
    | none => .error (.noSuchOption text [])

/-- Whether a word is an option. -/
def isOption (word : String) : Bool := Text.hasStart word "-" && 1 < word.length

/-- Reads words; at most `bound` of them. -/
def readFrom (name : Name) : Nat → Line → List String → Except UsageError Line
  | 0, line, _ => .ok line
  | _ + 1, line, [] => .ok line
  | bound + 1, line, word :: rest =>
    if word = "--" then .ok { line with words := line.words ++ rest }
    else if isOption word then
      if Text.hasStart word "--" then
        match long name line word rest with
        | .ok (line, rest) => readFrom name bound line rest
        | .error e => .error e
      else
        match short name line (word.toList.drop 1) with
        | .ok line => readFrom name bound line rest
        | .error e => .error e
    else if name.isGroup then .ok { line with words := line.words ++ word :: rest }
    else readFrom name bound (line.addWord word) rest

/-- The line of the words after the name of a command. -/
def read (name : Name) (words : List String) : Except UsageError Line :=
  readFrom name words.length {} words

/-- The first option that was given and answers the whole command: help, or the version. -/
def asksFor? (line : Line) : Option Param :=
  (line.options.map Prod.fst).find? fun p => p = .help || p = .version

end Line

end PackageLint.Command
