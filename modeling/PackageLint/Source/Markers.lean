import PackageLint.Text.Basic
import PackageLint.Text.Blank

/-!
# Markers in source text

Two marks in a file change how it is checked. A comment that begins with `@flow` says that the text is
in a dialect whose format is not judged, and a shebang makes the file a command.

## Main definitions

* `Source.isLintable`: whether a text lacks the `@flow` mark.
* `Source.hasShebang`: whether a text holds the shebang of a command.
-/

namespace PackageLint.Source

open PackageLint.Text

/-! ### The flow mark -/

/-- The openings of a comment that may hold the mark. -/
def commentOpenings : List String := ["//", "/**", "/*", "*"]

/-- Whether a comment with the mark comes next, after blanks. -/
def flowMarkNext (cs : List Char) : Bool :=
  commentOpenings.any fun opening =>
    match dropStart? opening.toList (skipBlanks cs) with
    | some rest => "@flow".toList.isPrefixOf (skipBlanks rest)
    | none => false

/-- Whether the mark comes next after some line feed. -/
def flowMarkAfterLine : List Char → Bool
  | [] => false
  | c :: rest => (c = '\n' && flowMarkNext rest) || flowMarkAfterLine rest

/-- Whether some line begins with a comment that has the mark. -/
def hasFlowMark (cs : List Char) : Bool := flowMarkNext cs || flowMarkAfterLine cs

/-- Whether the format of a text is judged. -/
def isLintable (content : String) : Bool := !hasFlowMark content.toList

/-! ### The shebang -/

/-- Whether the shebang comes next. -/
def shebangNext (cs : List Char) : Bool :=
  match dropStart? "#!".toList cs with
  | some rest => "/usr/bin/env".toList.isPrefixOf (skipBlanks rest)
  | none => false

/-- Whether the shebang of a command occurs. -/
def hasShebangChars : List Char → Bool
  | [] => false
  | c :: rest => shebangNext (c :: rest) || hasShebangChars rest

/-- Whether a text holds the shebang of a command. -/
def hasShebang (code : String) : Bool := hasShebangChars code.toList

end PackageLint.Source
