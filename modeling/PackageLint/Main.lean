import PackageLint.Command.Run
import Std.Time.DateTime

/-!
# The program

The outer layer: the command line is run with the files of the real disk. What a command prints goes
to the output, what goes wrong to the error output. Every line of the log begins with its time.

## Main definitions

* `Program.host`: the effects of commands on the real disk.
* `main`: the program.
-/

namespace PackageLint.Program

/-! ### The disk -/

/-- What went wrong at a path, by the report of the system. -/
def fileError (path : String) : IO.Error → FileError
  | .inappropriateType .. => .isDirectory path
  | .alreadyExists .. => .notDirectory path
  | .invalidArgument .. => .nameTooLong path
  | _ => .notFound path

/-- The result of an action at a path. -/
def attempt {α : Type} (path : String) (action : IO α) : IO (Except FileError α) := do
  if Disk.holdsNul path then pure (.error (.notPath path))
  else
    match ← action.toBaseIO with
    | .ok a => pure (.ok a)
    | .error e => pure (.error (fileError path e))

/-- Whether there is a directory at a path. The empty path leads nowhere. -/
def isDir (path : String) : IO Bool := do
  if path = "" then pure false else ((← IO.currentDir) / path).isDir

/-- Whether there is anything at a path. -/
def isThere (path : String) : IO Bool := do
  if path = "" then pure false else ((← IO.currentDir) / path).pathExists

/-- The bytes of a file. -/
def bytes (path : String) : IO (Except FileError (List UInt8)) := do
  let file := Path.tidy path
  if ← isDir file then pure (.error (.isDirectory path))
  else
    let found ← attempt path (IO.FS.readBinFile file)
    pure (found.map ByteArray.toList)

/-- The names in a directory. -/
def entries (path : String) : IO (Except FileError (List String)) := do
  let dir ← IO.currentDir
  let found ← attempt path (dir / path).readDir
  pure (found.map fun entries => entries.toList.map IO.FS.DirEntry.fileName)

/-- Answers a question about the disk. -/
def answer : (q : Question) → IO q.Answer
  | .contents path => do pure ((← bytes path).map Utf8.read)
  | .entries path => entries path
  | .isDir path => isDir path
  | .isThere path => isThere path

/-- What a settings file holds. -/
def stored (path : String) : IO Settings.Stored := do
  let dir ← IO.currentDir
  match ← attempt path (dir / path).metadata with
  | .error (.nameTooLong _) => pure .nameTooLong
  | .error _ => pure .absent
  | .ok _ =>
    match ← bytes path with
    | .ok found => pure (.ofBytes found)
    | .error _ => pure .unreadable

/-- Makes the directories above a file. -/
def makeParents (path : String) : IO (Except DiskError Unit) := do
  let above := Path.parent (Path.tidy path)
  let made ← attempt path (if above = "" then pure () else IO.FS.createDirAll above)
  pure (made.mapError .file)

/-- Writes a file, with the directories above it. -/
def store (path content : String) : IO (Except DiskError Unit) := do
  match ← makeParents path with
  | .error e => pure (.error e)
  | .ok () =>
    let written ← attempt path (IO.FS.writeBinFile (Path.tidy path) ⟨(Utf8.write content).toArray⟩)
    pure (written.mapError .file)

/-! ### The log -/

/-- A number with leading zeros. -/
def padded (width n : Nat) : String := String.ofList (Decimal.padded width (Nat.toDigits 10 n))

/-- The present time, as it is written in a log. -/
def timeStamp : IO String := do
  let now ← Std.Time.Timestamp.now
  let time := Std.Time.PlainDateTime.ofWallTime (now.toWallTime .zero)
  let date := Text.join "-"
    [padded 4 time.year.toInt.toNat, padded 2 time.month.val.toNat, padded 2 time.day.val.toNat]
  let clock := Text.join ":"
    [padded 2 time.hour.val.toNat, padded 2 time.minute.val.toNat, padded 2 time.second.val.toNat]
  let part := padded 3 (time.nanosecond.val.toNat / 1000000)
  pure (date ++ "T" ++ clock ++ "." ++ part ++ "+00:00")

/-- Adds an event to the log at a path. -/
def append (path : String) (event : Journal.Event) : IO Unit := do
  match event.line? [("ts", .str (← timeStamp))] with
  | none => pure ()
  | some line =>
    let added ← attempt path do
      let handle ← IO.FS.Handle.mk (Path.tidy path) .append
      handle.write ⟨(Utf8.write line).toArray⟩
    match added with
    | .ok () => pure ()
    | .error _ => IO.eprintln ("Cannot write the log at " ++ path)

/-- Shows an event that no log takes in. -/
def notice (event : Journal.Event) : IO Unit := do
  match Journal.fill? event.template event.args with
  | some message => IO.eprintln message
  | none => pure ()

/-! ### Running -/

/-- No path has more segments. -/
def deepest : Nat := 4096

/-- The effects of commands on the real disk. -/
def host : Command.Host IO :=
  { answer, depth := pure deepest, stored, store, makeParents, append, notice }

/-- The surroundings of the program. -/
def environment : IO Command.Environment := do
  let workDir ← IO.currentDir
  let home ← IO.getEnv "HOME"
  let logPath ← IO.getEnv "ENTRYLINT_LOG_PATH"
  let logLevel ← IO.getEnv "ENTRYLINT_LOG_LEVEL"
  pure
    { workDir := workDir.toString
      home := home.getD "/"
      logPath := logPath.getD ""
      logLevel := logLevel.getD "" }

/-- What is said when a command breaks off. -/
def crashMessage : Command.Crash → String
  | .settings .nameTooLong => "A name in the path of a settings file is too long"
  | .settings .undecodable => "A settings file is not encoded as text"
  | .settings (.impossible _) => "A settings file names a number or date that does not exist"
  | .notPath _ => "A path holds a NUL character"
  | .noHome => "The home directory is not known"
  | .notLevel found => found.message
  | .disk (.file e) => "Cannot write " ++ e.path
  | .disk (.alreadyThere path) => "Cannot make the directory " ++ path
  | .tooManyDigits digits => "The manifest holds an integer of " ++ toString digits ++ " digits"

end PackageLint.Program

open PackageLint in
/-- Runs the command of the words it is given; the result is the exit code. -/
def main (words : List String) : IO UInt32 := do
  let outcome ← Command.run Program.host (← Program.environment) words
  IO.print outcome.output
  IO.eprint outcome.errors
  match outcome.crash with
  | some crash => IO.eprintln (Program.crashMessage crash)
  | none => pure ()
  pure outcome.code.toUInt32
