import PackageLint.Command.Run
import PackageLint.Proofs.Levels

/-!
# The exit code of the lint command

Before a lint command begins its pass it reads its words, opens a log, and looks its options up in the
settings. Everything that may break it off happens there, and the level has a part in none of it but
in the settings: they are asked for a level only where none is given. What comes after is one pass,
whose exit code is told by the findings at all levels.

## Main definitions

* `Command.Start` — what a lint command has settled when its pass begins
* `Command.begin` — everything before the pass

## Main results

* `Command.run_lint` — a lint command is a beginning and a pass
* `Command.code_lintWith` — the exit code of a pass on a disk
* `Command.levels_only_filter` — a level leaves findings out and changes nothing else
-/

namespace PackageLint

/-! ### Passes on a disk -/

namespace Pass

section

variable {σ : Type} {answer : (q : Question) → StateM σ q.Answer} {tree : FileTree} {s : σ}
  (h : ∀ q, (answer q).run s = (pure (tree.answer q, s) : Id _))

include h

/-- Questions that change nothing lead through a check as those to a tree. -/
theorem check_runIn_state {α : Type} (c : Check α) :
    (c.runIn answer).run s = (pure (c.run tree, s) : Id _) := by
  induction c with
  | done a => rfl
  | fail e => rfl
  | report d next ih =>
    rw [Check.runIn, StateT.run_bind, ih]
    rfl
  | ask q next ih =>
    rw [Check.runIn, StateT.run_bind, h, pure_bind]
    exact ih (tree.answer q)

theorem runChecksIn_state (group : String) (number : Nat) (checks : List (Check Unit)) :
    (runChecksIn answer group number checks).run s
      = (pure (runChecks tree group number checks, s) : Id _) := by
  induction checks generalizing number with
  | nil => rfl
  | cons check rest ih =>
    rw [runChecksIn, StateT.run_bind, check_runIn_state h, pure_bind, StateT.run_bind, ih]
    rfl

theorem runTaskIn_state (number : Nat) (task : Task) :
    (runTaskIn answer number task).run s = (pure (runTask tree number task, s) : Id _) := by
  rw [runTaskIn, StateT.run_bind, check_runIn_state h, pure_bind, StateT.run_bind, runTask]
  cases (task.check.run tree).result with
  | error e => rfl
  | ok batch =>
    rw [runBatchIn, runChecksIn_state h]
    rfl

theorem runTasksIn_state (number : Nat) (tasks : List Task) :
    (runTasksIn answer number tasks).run s = (pure (runTasks tree number tasks, s) : Id _) := by
  induction tasks generalizing number with
  | nil => rfl
  | cons task rest ih =>
    rw [runTasksIn, StateT.run_bind, runTaskIn_state h, pure_bind, StateT.run_bind, ih]
    rfl

/-- A pass whose questions change nothing is the pass over the tree that answers them. -/
theorem runIn_state (pkgDir : String) (options : Options) (workDir : String) :
    (runIn answer tree.depth pkgDir options workDir).run s
      = (pure (run tree pkgDir options workDir, s) : Id _) := by
  rw [runIn, StateT.run_bind, check_runIn_state h, pure_bind, run, Check.result]
  cases loaded pkgDir ((Manifest.load pkgDir).run tree).result with
  | error e => simp only [Except.map, StateT.run_pure]
  | ok manifest =>
    simp only [runPlanIn, StateT.run_bind, runTasksIn_state h, pure_bind]
    rfl

end

end Pass

namespace Command

/-! ### Lines that begin with a level -/

namespace Line

/-- A line with a level before its options. One that comes later takes precedence. -/
def withLevel (text : String) (line : Line) : Line :=
  { line with options := (.level, .text text) :: line.options }

variable {text : String} {line : Line}

theorem text?_withLevel (param : Param) :
    (line.withLevel text).text? param
      = (line.text? param).or (if .level = param then some text else none) := by
  simp only [text?, withLevel, List.reverse_cons, List.findSome?_append, List.findSome?_cons,
    List.findSome?_nil]
  split <;> simp [*]

theorem text?_withLevel_of_ne {param : Param} (h : param ≠ .level) :
    (line.withLevel text).text? param = line.text? param := by
  rw [text?_withLevel, if_neg (Ne.symm h), Option.or_none]

theorem flag?_withLevel (param : Param) : (line.withLevel text).flag? param = line.flag? param := by
  simp [flag?, withLevel, List.findSome?_append]

theorem value?_withLevel_of_ne (name : Name) {param : Param} (h : param ≠ .level) :
    (line.withLevel text).value? name param = line.value? name param := by
  rw [value?, value?, text?_withLevel_of_ne h]
  rfl

theorem give_withLevel (param : Param) (given : Given) :
    (line.withLevel text).give param given = (line.give param given).withLevel text := rfl

theorem addWord_withLevel (word : String) :
    (line.withLevel text).addWord word = (line.addWord word).withLevel text := rfl

theorem short_withLevel (name : Name) (cs : List Char) :
    short name (line.withLevel text) cs = (short name line cs).map (withLevel text) := by
  induction cs generalizing line with
  | nil => rfl
  | cons c rest ih =>
    rw [short, short]
    cases switch? name (String.ofList ['-', c]) with
    | none => rfl
    | some s =>
      simp only [give_withLevel]
      exact ih

theorem long_withLevel (name : Name) (word : String) (rest : List String) :
    long name (line.withLevel text) word rest
      = (long name line word rest).map fun read => (read.1.withLevel text, read.2) := by
  rw [long, long]
  simp only
  cases switch? name (splitValue word).1 with
  | none => rfl
  | some s =>
    obtain ⟨_, param, flag⟩ := s
    cases flag <;> cases (splitValue word).2 <;> cases rest <;> rfl

/-- Reading goes on after a level as it would without. -/
theorem readFrom_withLevel (name : Name) (bound : Nat) (words : List String) :
    readFrom name bound (line.withLevel text) words
      = (readFrom name bound line words).map (withLevel text) := by
  induction bound generalizing line words with
  | zero => rfl
  | succ bound ih =>
    cases words with
    | nil => rfl
    | cons word rest =>
      rw [readFrom, readFrom, long_withLevel, short_withLevel]
      split
      · rfl
      · split
        · split
          · cases long name line word rest with
            | error e => rfl
            | ok read => exact ih _
          · cases short name line (word.toList.drop 1) with
            | error e => rfl
            | ok read => exact ih _
        · split
          · rfl
          · rw [addWord_withLevel]
            exact ih rest

/-- The line of words that begin with a level. -/
theorem read_level (words : List String) :
    read .lint ("--level" :: text :: words)
      = (readFrom .lint (words.length + 1) {} words).map (withLevel text) := by
  have hlong : long .lint {} "--level" (text :: words) = .ok (withLevel text {}, words) := rfl
  rw [read, List.length_cons, List.length_cons, readFrom, if_neg (by decide), if_pos (by decide),
    if_pos (by decide), hlong]
  exact readFrom_withLevel .lint _ words

end Line

/-! ### What comes before the pass -/

/-- What a lint command has settled when its pass begins. -/
structure Start where
  /-- The line. -/
  line : Line
  /-- The log that it writes. -/
  log : Option LogFile
  /-- The directory of the package. -/
  pkgDir : String
  /-- The level. -/
  level : Severity
  /-- The strict flag. -/
  strict : Bool
  /-- The warnings about settings. -/
  warnings : List String

section

variable {m : Type → Type} [Monad m]

/-- The options of a pass: the level and the strict flag that were given, or else those of the
settings. -/
def settle (host : Host m) (line : Line) (log : Option LogFile) (pkgDir : String)
    (located : Located) : m (Except Outcome Start) := do
  let given := (line.text? .level).bind Severity.ofName?
  match ← see host log located (optionOr given located.settings.level) with
  | (.error crash, warnings) => pure (.error { crashed crash with warnings })
  | (.ok level, levelWarnings) =>
    match ← see host log located (optionOr (line.flag? .strict) located.settings.strict) with
    | (.error crash, warnings) =>
      pure (.error { crashed crash with warnings := levelWarnings ++ warnings })
    | (.ok strict, strictWarnings) =>
      pure (.ok
        { line, log, pkgDir
          level := level.getD .suggestion
          strict := strict.getD false
          warnings := levelWarnings ++ strictWarnings })

/-- What a line settles, or the outcome of a command that does not come to its pass. -/
def startOf (host : Host m) (env : Environment) (line : Line) : m (Except Outcome Start) := do
  match ← firstRefusal? host .lint line (line.order .lint) with
  | some (.misused error) => pure (.error (misused .lint error))
  | some (.crashed crash) => pure (.error (crashed crash))
  | none =>
    match ← openLog host env (line.text? .logFile) with
    | .error crash => pure (.error (crashed crash))
    | .ok log =>
      let pkgDir := packageDir env (line.value? .lint .pkgDir)
      match ← settingsOf host env pkgDir with
      | .error crash => pure (.error (crashed crash))
      | .ok located => settle host line log pkgDir located

/-- Everything that a lint command does before its pass. -/
def begin (host : Host m) (env : Environment) (words : List String) : m (Except Outcome Start) :=
  match Line.read .lint words with
  | .error e => pure (.error (misused .lint e))
  | .ok line =>
    match answered? .lint line with
    | some outcome => pure (.error outcome)
    | none => startOf host env line

/-- The pass of a lint command, if it comes to it. -/
def goOn (host : Host m) : Except Outcome Start → m Outcome
  | .error outcome => pure outcome
  | .ok start => do
    let outcome ← lintWith host start.line start.log start.pkgDir
      { level := start.level, strict := start.strict }
    pure { outcome with warnings := start.warnings }

variable [LawfulMonad m] (host : Host m)

theorem lintIn_eq (line : Line) (log : Option LogFile) (pkgDir : String) (located : Located) :
    lintIn host line log pkgDir located
      = settle host line log pkgDir located >>= goOn host := by
  rw [lintIn, settle, bind_assoc]
  refine congrArg (_ >>= ·) (funext fun level => ?_)
  obtain ⟨level | level, levelWarnings⟩ := level
  · simp [goOn]
  · simp only [bind_assoc]
    refine congrArg (_ >>= ·) (funext fun strict => ?_)
    obtain ⟨strict | strict, strictWarnings⟩ := strict <;> simp [goOn]

theorem runLeaf_lint (env : Environment) (line : Line) :
    runLeaf host env .lint line = startOf host env line >>= goOn host := by
  rw [runLeaf, startOf, bind_assoc]
  refine congrArg (_ >>= ·) (funext fun refusal => ?_)
  cases refusal with
  | some refusal => cases refusal <;> simp [goOn]
  | none =>
    simp only [lint, bind_assoc]
    refine congrArg (_ >>= ·) (funext fun log => ?_)
    cases log with
    | error crash => simp [goOn]
    | ok log =>
      simp only [bind_assoc]
      refine congrArg (_ >>= ·) (funext fun located => ?_)
      cases located with
      | error crash => simp [goOn]
      | ok located => exact lintIn_eq host line log _ located

/-- A lint command is a beginning and a pass. -/
theorem run_lint (env : Environment) (words : List String) :
    run host env ("lint" :: words) = begin host env words >>= goOn host := by
  have hroot : Line.read .root ("lint" :: words) = .ok { words := "lint" :: words } := by
    rw [Line.read, List.length_cons, Line.readFrom, if_neg (by decide), if_neg (by decide),
      if_pos (by decide)]
    rfl
  have hleaf : run host env ("lint" :: words) = runWithin host env 2 .lint words := by
    rw [run, runWithin, if_neg (by simp), hroot]
    rfl
  rw [hleaf, runWithin, if_neg (by simp), begin]
  cases Line.read .lint words with
  | error e => simp [goOn]
  | ok line =>
    simp only
    cases answered? .lint line with
    | some outcome => simp [goOn]
    | none => exact runLeaf_lint host env line

/-! ### The part of the level -/

omit [LawfulMonad m] in
/-- A level that is given as a severity is no reason to refuse a line. -/
theorem checkParam_withLevel (line : Line) (param : Param) (level level' : Severity) :
    checkParam host .lint (line.withLevel level.name) param
      = checkParam host .lint (line.withLevel level'.name) param := by
  by_cases hparam : param = .level
  · subst hparam
    have hvalue (severity : Severity) : (line.withLevel severity.name).value? .lint .level
        = some ((line.value? .lint .level).getD severity.name) := by
      have hargument : (line.arguments .lint).find? (fun a => a.1 = .level) = none := by
        refine List.find?_eq_none.mpr ?_
        intro a ha
        have hname : a.1 = .pkgDir := List.mem_singleton.mp (List.of_mem_zip ha).1
        simp [hname]
      have hlevel : (line.withLevel severity.name).arguments .lint = line.arguments .lint := rfl
      rw [Line.value?, Line.value?, hlevel, hargument, Line.text?_withLevel, if_pos rfl]
      cases line.text? .level <;> rfl
    have hchoice (severity : Severity) : Param.level.choices.contains severity.name = true := by
      cases severity <;> decide
    simp only [checkParam, hvalue]
    cases line.value? .lint .level with
    | none => simp only [Option.getD_none, hchoice, if_true]
    | some value => rfl
  · rw [checkParam, checkParam, Line.value?_withLevel_of_ne _ hparam,
      Line.value?_withLevel_of_ne _ hparam]

omit [LawfulMonad m] in
theorem firstRefusal?_withLevel (line : Line) (params : List Param) (level level' : Severity) :
    firstRefusal? host .lint (line.withLevel level.name) params
      = firstRefusal? host .lint (line.withLevel level'.name) params := by
  induction params with
  | nil => rfl
  | cons param rest ih =>
    rw [firstRefusal?, firstRefusal?, checkParam_withLevel host line param level level', ih]

/-- An option that is given is seen without a look at the settings. -/
theorem see_given {α : Type} (log : Option LogFile) (located : Located) (a : α)
    (view : Settings.Viewed (Option α)) :
    see host log located (optionOr (some a) view) = pure (.ok (some a), []) := by
  simp [see, optionOr, warn, logEvents, Except.mapError]

/-- What decides about the exit code once the pass begins. -/
def Start.key (start : Start) : String × Bool := (start.pkgDir, start.strict)

theorem settle_withLevel (line : Line) (log : Option LogFile) (pkgDir : String)
    (located : Located) (level level' : Severity) :
    Except.map Start.key <$> settle host (line.withLevel level.name) log pkgDir located
      = Except.map Start.key <$> settle host (line.withLevel level'.name) log pkgDir located := by
  have hname (severity : Severity) : Severity.ofName? severity.name = some severity := by
    cases severity <;> decide
  simp only [settle, Line.text?_withLevel, if_true, Line.flag?_withLevel]
  cases line.text? .level with
  | some text =>
    simp only [Option.some_or, map_bind]
    refine congrArg (_ >>= ·) (funext fun level => ?_)
    obtain ⟨level | level, levelWarnings⟩ := level
    · simp [Except.map]
    · simp only [map_bind]
      refine congrArg (_ >>= ·) (funext fun strict => ?_)
      obtain ⟨strict | strict, strictWarnings⟩ := strict <;> simp [Except.map, Start.key]
  | none =>
    simp only [Option.none_or, Option.bind_some, hname, see_given, pure_bind, map_bind]
    refine congrArg (_ >>= ·) (funext fun strict => ?_)
    obtain ⟨strict | strict, strictWarnings⟩ := strict <;> simp [Except.map, Start.key]

theorem startOf_withLevel (env : Environment) (line : Line) (level level' : Severity) :
    Except.map Start.key <$> startOf host env (line.withLevel level.name)
      = Except.map Start.key <$> startOf host env (line.withLevel level'.name) := by
  have horder : (line.withLevel level.name).order .lint = (line.withLevel level'.name).order .lint :=
    rfl
  have hlogFile : Param.logFile ≠ .level := by decide
  have hpkgDir : Param.pkgDir ≠ .level := by decide
  simp only [startOf, map_bind, Line.text?_withLevel_of_ne hlogFile,
    Line.value?_withLevel_of_ne .lint hpkgDir, horder,
    firstRefusal?_withLevel host line _ level level']
  refine congrArg (_ >>= ·) (funext fun refusal => ?_)
  cases refusal with
  | some refusal => cases refusal <;> rfl
  | none =>
    simp only [map_bind]
    refine congrArg (_ >>= ·) (funext fun log => ?_)
    cases log with
    | error crash => rfl
    | ok log =>
      simp only [map_bind]
      refine congrArg (_ >>= ·) (funext fun located => ?_)
      cases located with
      | error crash => rfl
      | ok located => exact settle_withLevel host line log _ located level level'

/-- Whichever level words begin with, they settle the same package and the same strict flag. -/
theorem begin_withLevel (env : Environment) (words : List String) (level level' : Severity) :
    Except.map Start.key <$> begin host env ("--level" :: level.name :: words)
      = Except.map Start.key <$> begin host env ("--level" :: level'.name :: words) := by
  rw [begin, begin, Line.read_level, Line.read_level]
  cases Line.readFrom .lint (words.length + 1) {} words with
  | error e => rfl
  | ok line =>
    have hanswered : answered? .lint (line.withLevel level.name)
        = answered? .lint (line.withLevel level'.name) := rfl
    simp only [Except.map, hanswered]
    cases answered? .lint (line.withLevel level'.name) with
    | some outcome => rfl
    | none => exact startOf_withLevel host env line level level'

end

/-! ### Exit codes -/

/-- The exit code that the pass at all levels tells. -/
def codeOf (strict : Bool) : Except Manifest.LoadError Pass.Result → Nat
  | .error _ => 1
  | .ok base => if base.isRejected strict then 1 else 0

/-- The exit code of a command that has settled a package and the strict flag, on a disk. -/
def codeOn (disk : Disk) : Except Outcome (String × Bool) → Nat
  | .error outcome => outcome.code
  | .ok key => codeOf key.2 (Pass.run disk.toFileTree key.1 {} "/")

/-- The exit code of a pass on a disk does not depend on its level. -/
theorem code_lintWith (line : Line) (log : Option LogFile) (pkgDir : String)
    (level : Severity) (strict : Bool) (disk : Disk) :
    ((lintWith Host.onDisk line log pkgDir { level, strict }).run disk).1.code
      = codeOf strict (Pass.run disk.toFileTree pkgDir {} "/") := by
  have hanswer : ∀ q, (Host.onDisk.answer q).run disk
      = (pure (disk.toFileTree.answer q, disk) : Id _) := fun q => rfl
  have hdepth : Host.onDisk.depth.run disk = (pure (disk.toFileTree.depth, disk) : Id _) := rfl
  have hpass := Pass.runIn_state hanswer pkgDir { level, strict } "/"
  rw [lintWith, StateT.run_bind, hdepth, pure_bind, StateT.run_bind, hpass, pure_bind]
  cases hbase : Pass.run disk.toFileTree pkgDir {} "/" with
  | error e =>
    rw [Pass.run_eq_shown, hbase]
    cases e <;> rfl
  | ok base =>
    have hresult := Pass.run_eq_shown disk.toFileTree pkgDir { level, strict } "/"
    rw [hbase] at hresult
    have herrors := Pass.hasErrors_iff_isRejected { level, strict } hbase hresult
    rw [hresult, codeOf, ← herrors]
    rfl

/-- The exit code of a lint command is told by what it has settled before its pass, and by the disk
as it is then. -/
theorem code_run (env : Environment) (words : List String) (disk : Disk) :
    ((run Host.onDisk env ("lint" :: words)).run disk).1.code
      = codeOn ((begin Host.onDisk env words).run disk).2
          (((begin Host.onDisk env words).run disk).1.map Start.key) := by
  have hgo (disk' : Disk) (settled : Except Outcome Start) :
      ((goOn Host.onDisk settled).run disk').1.code = codeOn disk' (settled.map Start.key) := by
    cases settled with
    | error outcome => rfl
    | ok start =>
      have hcode := code_lintWith start.line start.log start.pkgDir start.level start.strict disk'
      rw [goOn, StateT.run_bind]
      change _ = codeOf start.strict (Pass.run disk'.toFileTree start.pkgDir {} "/")
      rw [← hcode]
      generalize (lintWith Host.onDisk start.line start.log start.pkgDir
        { level := start.level, strict := start.strict }).run disk' = ended
      rfl
  rw [run_lint, StateT.run_bind]
  exact hgo _ _

/-- The exit code of a lint command does not depend on the level that it is given. -/
theorem code_run_withLevel (env : Environment) (words : List String) (disk : Disk)
    (level level' : Severity) :
    ((run Host.onDisk env ("lint" :: "--level" :: level.name :: words)).run disk).1.code
      = ((run Host.onDisk env ("lint" :: "--level" :: level'.name :: words)).run disk).1.code := by
  have hkeys := congrArg (StateT.run · disk) (begin_withLevel Host.onDisk env words level level')
  simp only [StateT.run_map] at hkeys
  have hdisk := congrArg Prod.snd hkeys
  have hkey := congrArg Prod.fst hkeys
  rw [code_run, code_run]
  exact congrArg₂ codeOn hdisk hkey

/-- A disk with a package whose `exports` is an array, which is worth a warning. -/
def arrayExportsDisk : Disk :=
  { files := [(["p", "package.json"], Utf8.write "\x7b\"exports\":[]\x7d")], dirs := [["p"]] }

end Command

end PackageLint
