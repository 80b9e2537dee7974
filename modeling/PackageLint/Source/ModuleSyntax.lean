import PackageLint.Source.Comments
import PackageLint.Source.Format
import PackageLint.Text.Basic
import PackageLint.Text.Blank
import PackageLint.Text.Word

/-!
# Recognising module syntax

The format of source text is guessed from the statements of either module system. A statement is
looked for at the start of the text and after every blank or semicolon. The text is not parsed, so a
keyword inside a string literal counts too; text in which both systems show is reported as mixed
rather than guessed at.

## Main definitions

* `Source.showsEsm`, `Source.showsCjs`: whether a text shows the syntax of a module system.
* `Source.classify`: the format that a text looks like once its comments are gone.
-/

namespace PackageLint.Source

open PackageLint.Text

/-! ### Where statements begin -/

/-- Whether a statement may begin right after a character. -/
def isBreak (c : Char) : Bool := isBlank c || c = ';'

/-- Whether a recogniser accepts right after some break. -/
def afterSomeBreak (accepts : List Char → Bool) : List Char → Bool
  | [] => false
  | c :: rest => (isBreak c && accepts rest) || afterSomeBreak accepts rest

/-- Whether a recogniser accepts where some statement may begin. -/
def atSomeStatement (accepts : List Char → Bool) (cs : List Char) : Bool :=
  accepts cs || afterSomeBreak accepts cs

/-! ### Recognisers -/

/-- Whether no word character follows, so that a word has ended. -/
def wordEnds : List Char → Bool
  | [] => true
  | c :: _ => !isWord c

/-- Accepts a text with a given start when a recogniser accepts the rest. -/
def thenMatches (start : String) (accepts : List Char → Bool) (cs : List Char) : Bool :=
  match dropStart? start.toList cs with
  | some rest => accepts rest
  | none => false

/-- Accepts a text whose first character is in a class. -/
def headIs (accepts : Char → Bool) : List Char → Bool
  | [] => false
  | c :: _ => accepts c

/-- The characters that may stand between `import` and `from`. -/
def isBindingChar (c : Char) : Bool :=
  isWord c || c = ',' || c = '\x7b' || c = '\x7d' || isBlank c || c = '*'

/-- Accepts what may follow `import`: names up to `from`, a quoted module, a star or a brace, or
`.meta`. -/
def importRest (cs : List Char) : Bool :=
  occursIn "from".toList (cs.takeWhile isBindingChar)
    || headIs (fun c => c = '\'' || c = '"' || c = '*' || c = '\x7b') (skipBlanks cs)
    || thenMatches ".meta" wordEnds cs

/-- The words that may follow `export`. -/
def exportedWords : List String :=
  ["default", "type", "function", "const", "var", "let", "async function"]

/-- Accepts what may follow `export`. -/
def exportRest (cs : List Char) : Bool :=
  wordEnds cs
    && (headIs (fun c => c = '*' || c = '\x7b') (skipBlanks cs)
      || exportedWords.any fun word => word.toList.isPrefixOf (skipBlanks cs))

/-- Accepts an `import` or `export` statement. -/
def esmStatement (cs : List Char) : Bool :=
  thenMatches "import" importRest cs || thenMatches "export" exportRest cs

/-- Accepts `exports` after any character of the line. -/
def moduleRest : List Char → Bool
  | [] => false
  | c :: rest => c ≠ '\n' && thenMatches "exports" wordEnds rest

/-- The functions that may define properties of `exports`. -/
def definingFunctions : List String := ["defineProperty", "defineProperties", "assign"]

/-- Accepts a call whose first argument is `exports`. -/
def callOnExports (cs : List Char) : Bool :=
  thenMatches "(" (fun rest => thenMatches "exports" wordEnds (skipBlanks rest)) (skipBlanks cs)

/-- Accepts a use of `module.exports`, `exports`, `require`, `global`, or a definition on `exports`. -/
def cjsStatement (cs : List Char) : Bool :=
  thenMatches "module" moduleRest cs
    || thenMatches "exports." (headIs isWord) cs
    || thenMatches "require" (fun rest => headIs (· = '(') (skipBlanks rest)) cs
    || thenMatches "global." (headIs isWord) cs
    || definingFunctions.any fun f => thenMatches ("Object." ++ f) callOnExports cs

/-! ### Classification -/

/-- Whether characters show `import` or `export` syntax. -/
def showsEsmChars (cs : List Char) : Bool := atSomeStatement esmStatement cs

/-- Whether characters show `require` or `exports` syntax. -/
def showsCjsChars (cs : List Char) : Bool := atSomeStatement cjsStatement cs

/-- Whether a text shows `import` or `export` syntax. -/
def showsEsm (code : String) : Bool := showsEsmChars code.toList

/-- Whether a text shows `require` or `exports` syntax. -/
def showsCjs (code : String) : Bool := showsCjsChars code.toList

/-- The format of a text that does or does not show either syntax. -/
def formatOf (esm cjs : Bool) : Format :=
  match esm, cjs with
  | true, true => .mixed
  | true, false => .esm
  | false, true => .cjs
  | false, false => .unknown

/-- The format that a text looks like. -/
def classify (code : String) : Format :=
  let stripped := stripCommentChars code.toList
  formatOf (showsEsmChars stripped) (showsCjsChars stripped)

end PackageLint.Source
