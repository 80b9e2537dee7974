import PackageLint.Text.Basic

/-!
# What the name of a file says

The ending of a file name tells code from declarations and from sources of a typed dialect, and may
state a module format outright. Endings of declarations are also found before a final line feed.

## Main definitions

* `Source.isLintableName`, `Source.statesFormat`: code files, and those that state their format.
* `Source.isTypedSource`, `Source.isDeclaration`: the other kinds.
* `Source.adjacentDeclaration`: the declaration file that belongs beside a code file.
-/

namespace PackageLint.Source

open PackageLint.Text

/-- Whether a path ends in one of the endings. -/
def endsInOneOf (endings : List String) (path : String) : Bool := endings.any (hasEnd path)

/-- Whether a path is that of a code file whose format is judged. -/
def isLintableName (path : String) : Bool := endsInOneOf [".js", ".mjs", ".cjs"] path

/-- Whether the ending of a code file states its format. -/
def statesFormat (path : String) : Bool := endsInOneOf [".mjs", ".cjs"] path

/-- Whether a path is that of a typed source, which is no declaration. -/
def isTypedSource (path : String) : Bool :=
  (hasEnd path ".ts" && !hasEnd path ".d.ts") || hasEnd path ".tsx"

/-- Whether a path has an ending at its end or before a final line feed. -/
def hasLineEnd (path ending : String) : Bool := hasEnd path ending || hasEnd path (ending ++ "\n")

/-- Whether a path is that of a declaration file. -/
def isDeclaration (path : String) : Bool :=
  [".d.ts", ".d.mts", ".d.cts"].any (hasLineEnd path)

/-- The endings of code files with those of the declarations beside them. -/
def declarationEndings : List (String × String) :=
  [(".js", ".d.ts"), (".jsx", ".d.ts"), (".mjs", ".d.mts"), (".mjsx", ".d.mts"),
   (".cjs", ".d.cts"), (".cjsx", ".d.cts")]

/-- The path with another ending, when it has the given one at its end or before a final line
feed. -/
def changeEnding? (path : String) (change : String × String) : Option String :=
  if hasEnd path change.1 then some (dropEnd path change.1 ++ change.2)
  else if hasEnd path (change.1 ++ "\n") then
    some (dropEnd path (change.1 ++ "\n") ++ change.2 ++ "\n")
  else none

/-- The declaration file that belongs beside a code file; any other path is left as it is. -/
def adjacentDeclaration (path : String) : String :=
  (declarationEndings.findSome? (changeEnding? path)).getD path

end PackageLint.Source
