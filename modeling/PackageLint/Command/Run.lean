import PackageLint.Command.Help
import PackageLint.Command.Host
import PackageLint.Command.Line
import PackageLint.Command.Report
import PackageLint.Diagnostic.NameError
import PackageLint.Pass.Effects

/-!
# Running commands

A command line is read, its parameters are checked, and its command runs on a host. Options that are
not given come from the settings, which are looked at only for those. The exit code is 0 when all is
well, 1 when a pass reports an error or a command cannot do its work, and 2 for an error of use.

## Main definitions

* `Command.checkParam`: the check of one parameter.
* `Command.lint`, `Command.showSettings`, `Command.setSetting`, `Command.unsetSetting`: the commands.
* `Command.run`: runs the command of a list of words.
-/

namespace PackageLint.Command

variable {m : Type → Type} [Monad m]

/-! ### Outcomes -/

/-- The outcome of a command that prints something. -/
def printed (output : String) : Outcome := { output }

/-- The outcome of an error of use. -/
def misused (name : Name) (error : UsageError) : Outcome :=
  { errors := error.text name, code := 2 }

/-- The outcome of a command that cannot do its work. -/
def failed (message : String) : Outcome :=
  { errors := Wrap.printed (Markup.plain ("Error: " ++ Markup.escape message)) ++ "\n", code := 1 }

/-- The outcome of a command that breaks off. -/
def crashed (crash : Crash) : Outcome := { code := 1, crash := some crash }

/-! ### Checking parameters -/

/-- Whether a path leads to a directory. -/
def isDir (host : Host m) (path : String) : m Bool := host.answer (.isDir path)

/-- Whether a path leads to a file. -/
def isFile (host : Host m) (path : String) : m Bool := do
  let there : Bool ← host.answer (.isThere path)
  let dir ← isDir host path
  pure (there && !dir)

/-- Why a command does not begin its work. -/
inductive Refusal where
  /-- It is not used as it should be. -/
  | misused (error : UsageError)
  /-- It breaks off. -/
  | crashed (crash : Crash)
  deriving Repr

/-- The refusal of a path that is no path, and else what a look at it shows. -/
def checkPath (path : String) (look : m (Option UsageError)) : m (Option Refusal) :=
  if Disk.holdsNul path then pure (some (.crashed (.notPath path)))
  else do pure ((← look).map .misused)

/-- Checks what was given for a parameter. -/
def checkParam (host : Host m) (name : Name) (line : Line) (param : Param) :
    m (Option Refusal) := do
  match line.value? name param with
  | none =>
    pure (if param.isRequired && name.arguments.contains param then
        some (.misused (.missingArgument param))
      else none)
  | some value =>
    match param with
    | .level | .scope | .key =>
      pure (if param.choices.contains value then none else some (.misused (.badChoice param value)))
    | .pkgDir | .pkgDirOption =>
      checkPath value do
        pure (if (← isFile host value) then some (.isFile param value) else none)
    | .logFile =>
      checkPath value do
        pure (if (← isDir host value) then some (.isDirectory param value) else none)
    | _ => pure none

/-- The first refusal for parameters in an order. -/
def firstRefusal? (host : Host m) (name : Name) (line : Line) : List Param → m (Option Refusal)
  | [] =>
    pure (match line.extra name with
      | [] => none
      | extra => some (.misused (.extraArguments extra)))
  | param :: rest => do
    match ← checkParam host name line param with
    | some refusal => pure (some refusal)
    | none => firstRefusal? host name line rest

/-! ### Places -/

/-- The directory of the package that a command is about. -/
def packageDir (env : Environment) (given : Option String) : String :=
  let path := Path.absolute env.workDir (given.getD ".")
  "/" ++ String.ofList (Text.stripLeading '/' path.toList)

/-- The home directory that a text names, without slashes at its end. A text that refers to a home
directory itself names none. -/
def homeDir? (text : String) : Option String :=
  match Path.dropTrailingSlashes text.toList with
  | [] => some "/"
  | '~' :: _ => none
  | cs => some (Path.tidy (String.ofList cs))

/-- The path of a settings file in the given directories. -/
def settingsPath (home pkgDir : String) : Settings.Scope → String
  | .project => Path.join pkgDir ".entrylint.yaml"
  | .global => Path.tidy (home ++ "/.entrylint/settings.yaml")

/-- The settings of a package, with the paths of their files. -/
structure Located where
  /-- The settings. -/
  settings : Settings
  /-- The path of the file of a scope. -/
  path : Settings.Scope → String

/-- The settings of a package. -/
def settingsOf (host : Host m) (env : Environment) (pkgDir : String) :
    m (Except Crash Located) := do
  match homeDir? env.home with
  | none => pure (.error .noHome)
  | some home =>
    let path := settingsPath home pkgDir
    let project ← host.stored (path .project)
    let global ← host.stored (path .global)
    pure (.ok { settings := { project, global }, path })

/-! ### Logging -/

/-- A log that a command writes. -/
structure LogFile where
  /-- Its path. -/
  path : String
  /-- From which level on it takes in events. -/
  threshold : Journal.Level

/-- The log that a command is asked to write. -/
def logFileOf (env : Environment) (given : Option String) :
    Except Journal.NotLevel (Option LogFile) :=
  let path := match given with
    | some path => if path = "" then env.logPath else path
    | none => env.logPath
  if path = "" then .ok none
  else (Journal.thresholdOf env.logLevel).map fun threshold => some { path, threshold }

/-- Opens the log that a command is asked to write. -/
def openLog (host : Host m) (env : Environment) (given : Option String) :
    m (Except Crash (Option LogFile)) := do
  match logFileOf env given with
  | .error e => pure (.error (.notLevel e))
  | .ok none => pure (.ok none)
  | .ok (some log) =>
    let opened ← host.makeParents log.path
    pure ((opened.map fun _ => some log).mapError .disk)

/-- From which level on events are taken in. -/
def thresholdWith (log : Option LogFile) : Journal.Level :=
  match log with
  | some log => log.threshold
  | none => Journal.closedThreshold

/-- Adds an event to a log; without one, gives notice of it. -/
def logEvent (host : Host m) (log : Option LogFile) (event : Journal.Event) : m Unit :=
  if event.passes (thresholdWith log) then
    match log with
    | some log => host.append log.path event
    | none => host.notice event
  else pure ()

/-- Logs events in order. -/
def logEvents (host : Host m) (log : Option LogFile) : List Journal.Event → m Unit
  | [] => pure ()
  | event :: rest => do
    logEvent host log event
    logEvents host log rest

/-- The event of a warning about settings. -/
def warningEvent (text : String) : Journal.Event :=
  { level := .warning, logger := "entrylint.settings", template := text }

/-- Logs warnings about settings, and gives those that are not below the threshold. -/
def warn (host : Host m) (log : Option LogFile) (texts : List String) : m (List String) := do
  let events := texts.map warningEvent
  logEvents host log events
  pure ((events.filter fun event => event.passes (thresholdWith log)).map Journal.Event.template)

/-- The event of a check that failed. -/
def failureEvent (entry : String × Failure) : Journal.Event :=
  { level := .error, logger := "entrylint.tasks"
    template := TaskQueue.failureLine entry.1 entry.2, failure := some entry.2 }

/-- The event of a pass that is over. -/
def passEvent (pkgDir : String) (count : Nat) : Journal.Event :=
  { level := .info, logger := "entrylint.core"
    template := "Linted " ++ pkgDir ++ ": " ++ toString count ++ " diagnostics" }

/-! ### The pass -/

/-- An option with its warnings: as given, or else from the settings. -/
def optionOr {α : Type} (given : Option α) (view : Settings.Viewed (Option α)) :
    Settings.Viewed (Option α) :=
  match given with
  | some a => ⟨.ok (some a), []⟩
  | none => view

/-- Shows what a pass reports. -/
def reportOf (line : Line) (pkgDir : String) (result : Pass.Result) : Outcome :=
  let name := Report.packageName result.manifest pkgDir
  { output :=
      if line.flag? .json = some true then Report.json result.diagnostics
      else Report.table (line.flag? .verbose = some true) name result.diagnostics
    code := if result.hasErrors then 1 else 0 }

/-- Lints a package with options, and logs what there is to log. -/
def lintWith (host : Host m) (line : Line) (log : Option LogFile) (pkgDir : String)
    (options : Pass.Options) : m Outcome := do
  match ← Pass.runIn host.answer (← host.depth) pkgDir options "/" with
  | .error (.tooManyDigits digits) => pure (crashed (.tooManyDigits digits))
  | .error e => pure (failed e.message)
  | .ok result =>
    logEvents host log (result.failures.map failureEvent)
    logEvents host log [passEvent pkgDir result.diagnostics.length]
    pure (reportOf line pkgDir result)

/-- Logs the warnings of a view, and gives what was seen together with the warnings that are not below
the threshold. -/
def see {α : Type} (host : Host m) (log : Option LogFile) (located : Located)
    (view : Settings.Viewed α) : m (Except Crash α × List String) := do
  let warnings ← warn host log (view.warnings.map (Settings.Warning.text located.path))
  pure (view.value.mapError .settings, warnings)

/-- Lints a package. The level and the strict flag come from the settings where they are not
given. -/
def lintIn (host : Host m) (line : Line) (log : Option LogFile) (pkgDir : String)
    (located : Located) : m Outcome := do
  let given := (line.text? .level).bind Severity.ofName?
  match ← see host log located (optionOr given located.settings.level) with
  | (.error crash, warnings) => pure { crashed crash with warnings }
  | (.ok level, levelWarnings) =>
    match ← see host log located (optionOr (line.flag? .strict) located.settings.strict) with
    | (.error crash, warnings) => pure { crashed crash with warnings := levelWarnings ++ warnings }
    | (.ok strict, strictWarnings) =>
      let outcome ← lintWith host line log pkgDir
        { level := level.getD .suggestion, strict := strict.getD false }
      pure { outcome with warnings := levelWarnings ++ strictWarnings }

/-- Opens the log, and lints a package with its settings. -/
def lint (host : Host m) (env : Environment) (line : Line) : m Outcome := do
  match ← openLog host env (line.text? .logFile) with
  | .error crash => pure (crashed crash)
  | .ok log =>
    let pkgDir := packageDir env (line.value? .lint .pkgDir)
    match ← settingsOf host env pkgDir with
    | .error crash => pure (crashed crash)
    | .ok located => lintIn host line log pkgDir located

/-! ### Settings -/

/-- A text without blanks at its end. -/
def withoutEndBlanks (s : String) : String := String.ofList (Wrap.dropEndBlanks s.toList)

/-- What is shown of settings. -/
def settingsText (entries : Yaml.Mapping) : String :=
  if entries.isEmpty then "No settings configured."
  else Wrap.printed (Markup.shown (withoutEndBlanks (Yaml.write entries)))

/-- Shows the settings of a package. -/
def showSettings (host : Host m) (env : Environment) (line : Line) : m Outcome := do
  match ← settingsOf host env (packageDir env (line.value? .show .pkgDir)) with
  | .error crash => pure (crashed crash)
  | .ok located =>
    match ← see host none located located.settings.merged with
    | (.error crash, warnings) => pure { crashed crash with warnings }
    | (.ok entries, warnings) => pure { output := settingsText entries ++ "\n", warnings }

/-- The words for true. -/
def yesWords : List String := ["true", "yes", "1", "on"]

/-- The words for false. -/
def noWords : List String := ["false", "no", "0", "off"]

/-- The value that a text gives to a setting, or why it gives none. -/
def settingValue (key text : String) : Except String Yaml.Scalar :=
  if key = "level" then
    match Severity.named text with
    | .ok severity => .ok (.str severity.name)
    | .error e => .error e.message
  else
    let lower := String.ofList (text.toList.map Text.lowerAscii)
    if yesWords.contains lower then .ok (.bool true)
    else if noWords.contains lower then .ok (.bool false)
    else .error ("Expected a boolean, got " ++ Text.quoted text)

/-- How a value is shown when it has been stored. -/
def shownValue : Yaml.Scalar → String
  | .str s => s
  | value => value.literal

/-- The scope that a line names; by default that of the package. -/
def scopeOf (line : Line) : Settings.Scope :=
  ((line.text? .scope).bind Settings.Scope.ofName?).getD .project

/-- Writes the file of a scope after a change of the settings, unless `keep` says that it may stay as
it is and it did. -/
def storeChange (host : Host m) (path : String) (scope : Settings.Scope) (keep : Settings.Stored → Bool)
    (after : Except Settings.ChangeError Settings) (output : String) : m Outcome := do
  match after with
  | .error (.unknownKey key) => pure (failed (Settings.unknownKeyMessage key))
  | .error (.fatal cause) => pure (crashed (.settings cause))
  | .ok after =>
    match after.stored scope with
    | .text content =>
      if keep (.text content) then pure (printed output)
      else
        match ← host.store path content with
        | .ok () => pure (printed output)
        | .error e => pure (crashed (.disk e))
    | _ => pure (printed output)

/-- Stores a setting. -/
def setSetting (host : Host m) (env : Environment) (line : Line) : m Outcome := do
  let key := (line.value? .set .key).getD ""
  match settingValue key ((line.value? .set .value).getD "") with
  | .error message => pure (failed message)
  | .ok value =>
    match ← settingsOf host env (packageDir env (line.text? .pkgDirOption)) with
    | .error crash => pure (crashed crash)
    | .ok { settings, path } =>
      let scope := scopeOf line
      storeChange host (path scope) scope (fun _ => false) (settings.set scope key (.scalar value))
        ("✓ Set " ++ key ++ " = " ++ shownValue value ++ " (" ++ scope.name ++ ")\n"
          ++ Wrap.printed (Markup.shown (path scope)) ++ "\n")

/-- Clears a setting. -/
def unsetSetting (host : Host m) (env : Environment) (line : Line) : m Outcome := do
  let key := (line.value? .unset .key).getD ""
  match ← settingsOf host env (packageDir env (line.text? .pkgDirOption)) with
  | .error crash => pure (crashed crash)
  | .ok { settings, path } =>
    let scope := scopeOf line
    storeChange host (path scope) scope (· = settings.stored scope) (settings.remove scope key)
      ("✓ Cleared " ++ key ++ " (" ++ scope.name ++ ")\n")

/-! ### All commands -/

/-- The version of the program. -/
def versionText : String := "cli, version 0.1.0\n"

/-- Runs a command that is no group. -/
def runLeaf (host : Host m) (env : Environment) (name : Name) (line : Line) : m Outcome := do
  match ← firstRefusal? host name line (line.order name) with
  | some (.misused error) => pure (misused name error)
  | some (.crashed crash) => pure (crashed crash)
  | none =>
    match name with
    | .lint => lint host env line
    | .show => showSettings host env line
    | .set => setSetting host env line
    | .unset => unsetSetting host env line
    | .root | .config => pure (printed (name.help ++ "\n"))

/-- What a group does without a command. The group of settings shows its help; the whole program
needs a command. -/
def runBare (name : Name) : Outcome :=
  match name with
  | .config => printed ("\n" ++ name.help ++ "\n")
  | _ => misused name .missingCommand

/-- The outcome of a line that asks for something that answers the whole command. -/
def answered? (name : Name) (line : Line) : Option Outcome :=
  line.asksFor?.map fun param =>
    printed (if param = .version then versionText else name.help ++ "\n")

/-- The outcome of a word that is no command of a group, given the words after it. Options among them,
which can only stand there after `--`, are read as those of the group. -/
def unknownCommand (name : Name) (word : String) (rest : List String) : Outcome :=
  match Line.read name (word :: rest) with
  | .error e => misused name e
  | .ok line =>
    (answered? name line).getD
      (misused name (.noSuchCommand word (Text.closeTo word (name.commands.map Prod.fst))))

/-- Runs a command with the words after its name; `bound` limits the nesting of groups. -/
def runWithin (host : Host m) (env : Environment) : Nat → Name → List String → m Outcome
  | 0, name, _ => pure (runBare name)
  | bound + 1, name, words =>
    if name = .root && words.isEmpty then
      pure { errors := name.help ++ "\n", code := 2 }
    else
      match Line.read name words with
      | .error e => pure (misused name e)
      | .ok line =>
        match answered? name line with
        | some outcome => pure outcome
        | none =>
          if name.isGroup then
            match line.words with
            | [] => pure (runBare name)
            | word :: rest =>
              match name.commands.lookup word with
              | some command => runWithin host env bound command rest
              | none => pure (unknownCommand name word rest)
          else runLeaf host env name line

/-- Runs the command of a list of words. -/
def run (host : Host m) (env : Environment) (words : List String) : m Outcome :=
  runWithin host env 3 .root words

end PackageLint.Command
