import PackageLint.Check.Context
import PackageLint.ConditionTree.Resolve
import PackageLint.Manifest.Nearest
import PackageLint.Path.Basic

/-!
# Pairing code with declarations

A type-checker finds the declarations of an entry point by resolving `exports` with the condition
`types` on top of those of the code. This is done over for `import` and `require` in several
environments. The declaration that is found has to have the format of the code it describes, and where
code itself is found, a declaration has to lie beside it.

Only the root entry is looked at, and only in packages that ship declarations at all. Several
environments often lead to one place, which is looked at once.

## Main definitions

* `Declarations.Request`: one condition in one environment.
* `Declarations.examine`: looks at what a request leads to.
* `Declarations.check`: looks at all requests, leaving out repetitions.
* `Declarations.plan`: the check of the root entry.
-/

namespace PackageLint.Declarations

/-! ### Requests -/

/-- The conditions under which code is loaded. -/
inductive Condition where
  | import
  | require
  deriving DecidableEq, Repr

/-- The key of a condition. -/
def Condition.key : Condition → String
  | .import => "import"
  | .require => "require"

/-- The format that declarations for a condition have by themselves. -/
def Condition.format : Condition → Format
  | .import => .esm
  | .require => .cjs

/-- The environments, each given by its condition. -/
def environments : List (Option String) := [none, some "node", some "browser", some "worker"]

/-- A condition in an environment. -/
structure Request where
  /-- The environment. -/
  environment : Option String
  /-- The condition. -/
  condition : Condition
  deriving DecidableEq, Repr

/-- All requests, in order. -/
def requests : List Request :=
  environments.flatMap fun environment =>
    [{ environment, condition := .import }, { environment, condition := .require }]

/-- The root entry of an exports tree. -/
structure Root where
  /-- Its tree. -/
  tree : ConditionTree
  /-- Its place. -/
  location : Location

/-- What the root entry yields under conditions. -/
def Root.resolve (root : Root) (conditions : List String) : Option ConditionTree.Resolved :=
  root.tree.resolve conditions root.location

/-- The code that a condition leads to in an environment. -/
def Root.code (root : Root) (environment : Option String) (condition : Condition) :
    Option ConditionTree.Resolved :=
  root.resolve (condition.key :: environment.toList)

/-- What a request leads a type-checker to. -/
def Root.types (root : Root) (request : Request) : Option ConditionTree.Resolved :=
  root.resolve ("types" :: request.condition.key :: request.environment.toList)

/-- Whether `import` and `require` lead to different code in an environment. -/
def Root.isDual (root : Root) (environment : Option String) : Bool :=
  match root.code environment .import, root.code environment .require with
  | some a, some b => a.target != b.target
  | _, _ => false

/-- What tells requests apart: the place they lead to, and where code comes in two formats the
condition too. -/
def Root.identity (root : Root) (request : Request) (found : ConditionTree.Resolved) : String :=
  Text.join "." found.location
    ++ (if root.isDual request.environment then request.condition.key else "")

/-! ### Findings -/

/-- Where the declaration for a condition should be declared: a condition that is missing belongs
before a final `types`, else at the end. -/
def expectedLocation (location : Location) (condition : String) : Location :=
  if location.contains condition then location
  else if (location.takeWhile (· ≠ "types")).length + 1 = location.length then
    location.dropLast ++ [condition] ++ location.drop (location.length - 1)
  else location ++ [condition]

/-- The finding that a declaration has another format than expected. -/
def wrongFormat (condition : Condition) (found : ConditionTree.Resolved)
    (actual expected : Format) : Diagnostic :=
  { code := .exportsTypesInvalidFormat, severity := .warning, location := found.location
    args :=
      [("condition", .str condition.key), ("actual_format", .format actual),
       ("expect_format", .format expected),
       ("actual_extension", .str (Path.extension found.target)),
       ("expect_extension", .str expected.declarationExtension),
       ("expect_path", .strs (expectedLocation found.location condition.key))] }

/-- The finding that code has no declaration. `shipped` is the declaration that the package ships,
which could only be used if it had the format of the condition. -/
def notExported (condition : Condition) (found : ConditionTree.Resolved) (shipped : String)
    (actual : Format) : Diagnostic :=
  { code := .typesNotExported, severity := .warning, location := found.location
    args :=
      ("types_file_path", .str shipped) ::
        (if actual = condition.format then []
          else
            [("actual_extension", .str (Path.extension shipped)),
             ("expect_extension", .str condition.format.declarationExtension)]) }

/-! ### Looking at files -/

/-- The format of the code that a declaration describes, when that code is there. -/
def codeFormat (ctx : Context) : Option ConditionTree.Resolved → Check (Option Format)
  | none => .done none
  | some code => do
    let path := ctx.within code.target
    if ← Check.isThere path then
      let format ← Manifest.expectedFormat path
      pure (some format)
    else pure none

/-- Compares the format of a declaration with that of the code it describes. -/
def checkFormat (ctx : Context) (condition : Condition) (found : ConditionTree.Resolved)
    (code : Option ConditionTree.Resolved) : Check Unit := do
  let actual ← Manifest.expectedDeclarationFormat (ctx.within found.target)
  let ofCode ← codeFormat ctx code
  let expected := ofCode.getD condition.format
  if actual = expected then pure ()
  else Check.add (wrongFormat condition found actual expected)

/-- Looks for the declaration beside code. -/
def checkAdjacent (ctx : Context) (condition : Condition) (found : ConditionTree.Resolved)
    (shipped : String) : Check Unit := do
  if ← Check.isThere (ctx.within (Source.adjacentDeclaration found.target)) then pure ()
  else
    let actual ← Manifest.expectedDeclarationFormat (ctx.within shipped)
    Check.add (notExported condition found shipped actual)

/-- Looks at what a request leads to. What is not there is reported by the crawl. -/
def examine (ctx : Context) (root : Root) (shipped : String) (request : Request)
    (found : ConditionTree.Resolved) : Check Unit := do
  if ← Check.isThere (ctx.within found.target) then
    if Source.isDeclaration found.target then
      let code :=
        if root.isDual request.environment then none
        else root.code request.environment request.condition
      checkFormat ctx request.condition found code
    else checkAdjacent ctx request.condition found shipped
  else pure ()

/-- Looks at requests in turn, leaving out those whose identity was seen before. -/
def checkRequests (ctx : Context) (root : Root) (shipped : String) :
    List String → List Request → Check Unit
  | _, [] => .done ()
  | seen, request :: rest =>
    match root.types request with
    | none => checkRequests ctx root shipped seen rest
    | some found =>
      let identity := root.identity request found
      if seen.contains identity then checkRequests ctx root shipped seen rest
      else do
        examine ctx root shipped request found
        checkRequests ctx root shipped (identity :: seen) rest

/-- Looks at every request, repetitions included. -/
def checkEvery (ctx : Context) (root : Root) (shipped : String) : List Request → Check Unit
  | [] => .done ()
  | request :: rest =>
    match root.types request with
    | none => checkEvery ctx root shipped rest
    | some found => do
      examine ctx root shipped request found
      checkEvery ctx root shipped rest

/-! ### The declarations of a package -/

/-- The declarations that stand beside the implicit entry point. -/
def indexDeclaration : String := "./index.d.ts"

/-- The value of a field as a non-empty string. -/
def givenString (ctx : Context) (field : String) : Option String :=
  match (ctx.manifest.published field).1 with
  | .str s => if s = "" then none else some s
  | _ => none

/-- The declaration that the package ships for its root entry. -/
def shippedDeclaration (ctx : Context) : Check (Option String) :=
  match givenString ctx "types", givenString ctx "typings" with
  | some types, _ => pure (some types)
  | none, some typings => pure (some typings)
  | none, none => do
    match (← Context.readQuietly (ctx.within indexDeclaration)) with
    | some _ => pure (some indexDeclaration)
    | none => pure none

/-- Checks the root entry, when the package ships declarations. -/
def check (ctx : Context) (root : Root) : Check Unit := do
  match (← shippedDeclaration ctx) with
  | none => pure ()
  | some shipped => checkRequests ctx root shipped [] requests

/-- The root entry of an exports tree. A map whose first key is a condition is the root entry itself;
one of subpaths holds it under `.`. -/
def root? (tree : ConditionTree) (location : Location) : Option Root :=
  match tree with
  | .leaf _ | .array _ => some { tree, location }
  | .map entries =>
    match entries with
    | [] => none
    | (first, _) :: _ =>
      if Text.hasStart first "." then
        (Assoc.get? "." entries).map fun tree => { tree, location := location ++ ["."] }
      else some { tree, location }
  | _ => none

/-- The plan for the declarations of an exports tree. -/
def plan (ctx : Context) (tree : ConditionTree) (location : Location) : Plan :=
  match root? tree location with
  | some root => .task (.single "types-exported" (check ctx root))
  | none => {}

end PackageLint.Declarations
