import PackageLint.FileTree.Disk
import PackageLint.Journal.Record
import PackageLint.Path.Basic
import PackageLint.Settings.View

/-!
# What commands need from the outside

A command asks a file tree, reads and writes settings files, and adds lines to a log. Where these
effects happen is left open: on a disk that is a value, they are changes of that value.

## Main definitions

* `Command.Environment`: what a command is told about its surroundings.
* `Command.Host`: the effects.
* `Command.Outcome`: what comes of a command.
* `Command.Host.onDisk`: the effects on a disk that is a value.
-/

namespace PackageLint.Command

/-- What a command is told about its surroundings. -/
structure Environment where
  /-- The directory that relative paths start from. -/
  workDir : String
  /-- The home directory of the user. -/
  home : String
  /-- The path of the log, when the surroundings ask for one. -/
  logPath : String := ""
  /-- The name of the threshold of the log; empty for the default. -/
  logLevel : String := ""
  deriving Repr

/-- The effects that commands need. -/
structure Host (m : Type → Type) where
  /-- Answers a question about the file tree. -/
  answer : (q : Question) → m q.Answer
  /-- A bound on the length of a chain of nested directories. -/
  depth : m Nat
  /-- What a settings file holds. -/
  stored : String → m Settings.Stored
  /-- Writes a file, with the directories above it. -/
  store : String → String → m (Except DiskError Unit)
  /-- Makes the directories above a file. -/
  makeParents : String → m (Except DiskError Unit)
  /-- Adds an event to the log at a path, as a line. A line that cannot be written is lost. -/
  append : String → Journal.Event → m Unit
  /-- Gives notice of an event that no log takes in. -/
  notice : Journal.Event → m Unit

/-- Why a command breaks off. -/
inductive Crash where
  /-- A settings file cannot be used. -/
  | settings (cause : Settings.Fatal)
  /-- What was given for a path is none. -/
  | notPath (given : String)
  /-- There is no home directory. -/
  | noHome
  /-- The threshold of the log is no level. -/
  | notLevel (found : Journal.NotLevel)
  /-- A file or directory cannot be written. -/
  | disk (error : DiskError)
  /-- The manifest holds an integer that is too long to be read. -/
  | tooManyDigits (digits : Nat)
  deriving DecidableEq, Repr

/-- What comes of a command. -/
structure Outcome where
  /-- What is printed. -/
  output : String := ""
  /-- What is printed on the error output. -/
  errors : String := ""
  /-- The exit code. -/
  code : Nat := 0
  /-- The warnings about settings, in order. -/
  warnings : List String := []
  /-- Why the command broke off, if it did. -/
  crash : Option Crash := none
  deriving Repr

namespace Host

/-- Goes on with the disk after a change. -/
def change (f : Disk → Except DiskError Disk) : StateM Disk (Except DiskError Unit) := do
  match f (← get) with
  | .ok disk =>
    set disk
    pure (.ok ())
  | .error e => pure (.error e)

/-- What a settings file on a disk holds. Whatever is there and is no file cannot be opened. -/
def storedOn (disk : Disk) (path : String) : Settings.Stored :=
  match disk.find path with
  | .error (.nameTooLong _) => .nameTooLong
  | .error _ => .absent
  | .ok _ =>
    match disk.bytes path with
    | .ok bytes => .ofBytes bytes
    | .error _ => .unreadable

/-- The effects on a disk that is a value. Notices have no effect on it. -/
def onDisk : Host (StateM Disk) :=
  { answer := fun q => do pure ((← get).toFileTree.answer q)
    depth := do pure (← get).toFileTree.depth
    stored := fun path => do pure (storedOn (← get) path)
    store := fun path content =>
      change fun disk => do
        (← disk.makeDirs (Path.parent path)).writeFile path (Utf8.write content)
    makeParents := fun path => change fun disk => disk.makeDirs (Path.parent path)
    append := fun path event =>
      match event.line? with
      | some line => do
        let _ ← change fun disk => disk.appendFile path (Utf8.write line)
      | none => pure ()
    notice := fun _ => pure () }

end Host

end PackageLint.Command
