import PackageLint.Yaml.Lexeme

/-!
# Tokens of a YAML text

Indentation opens and closes blocks, so the tokens say where a block begins and ends. Whether a scalar
is the key of a mapping shows only at the colon after it; the place of every possible key is
remembered, and the tokens that open the mapping and mark the key are put in there. A possible key is
forgotten at the end of its line, and a text where a key has to be followed by a colon and is not is
malformed.

## Main definitions

* `Yaml.Token`: the tokens.
* `Yaml.Token.scan`: the tokens of a text.
-/

namespace PackageLint.Yaml

/-- A token. -/
inductive Token where
  | streamEnd
  | directive (content : Directive)
  | documentStart
  | documentEnd
  | blockSequenceStart
  | blockMappingStart
  | blockEnd
  | flowSequenceStart
  | flowMappingStart
  | flowSequenceEnd
  | flowMappingEnd
  | blockEntry
  | flowEntry
  | key
  | value
  | alias (name : String)
  | anchor (name : String)
  | tag (name : TagName)
  | scalar (text : String) (plain : Bool)
  deriving Repr, DecidableEq, Inhabited

namespace Token

/-! ### The state of scanning -/

/-- A place where a key may begin. -/
structure PossibleKey where
  /-- The number of tokens before it. -/
  position : Nat
  /-- Whether only a key can stand there. -/
  required : Bool
  /-- The mark where it begins. -/
  mark : Mark
  deriving Repr

/-- What is known between two tokens. -/
structure Scanner where
  /-- The marks to come. -/
  rest : List Mark
  /-- The tokens so far. -/
  tokens : List Token := []
  /-- The number of brackets that are open. -/
  flow : Nat := 0
  /-- The column of the innermost open block; outside of all blocks it is negative. -/
  indent : Int := -1
  /-- The columns of the blocks around it, innermost first. -/
  outer : List Int := []
  /-- Whether a key may begin here. -/
  keyAllowed : Bool := true
  /-- The possible key of each bracket depth. -/
  keys : List (Nat × PossibleKey) := []
  deriving Repr

namespace Scanner

/-- The mark that comes first. -/
def mark (s : Scanner) : Mark := s.rest.headD { char := endChar, line := 0, column := 0, index := 0 }

/-- The column of the first mark. -/
def column (s : Scanner) : Int := s.mark.column

/-- Adds a token. -/
def push (s : Scanner) (token : Token) : Scanner := { s with tokens := s.tokens ++ [token] }

/-- Goes over marks. -/
def skip (s : Scanner) (count : Nat) : Scanner := { s with rest := s.rest.drop count }

/-- Says whether a key may begin next. -/
def allowKey (s : Scanner) (allowed : Bool) : Scanner := { s with keyAllowed := allowed }

/-! ### Possible keys -/

/-- Forgets the possible key at this depth; none when a colon had to come. -/
def dropKey? (s : Scanner) : Option Scanner :=
  match s.keys.lookup s.flow with
  | some found =>
    if found.required then none else some { s with keys := s.keys.filter fun k => k.1 != s.flow }
  | none => some s

/-- Remembers that a key may begin here. -/
def saveKey? (s : Scanner) : Option Scanner :=
  if s.keyAllowed then
    s.dropKey?.map fun s =>
      let possible : PossibleKey :=
        { position := s.tokens.length
          required := s.flow = 0 && s.indent = s.column
          mark := s.mark }
      { s with keys := (s.flow, possible) :: s.keys }
  else some s

/-- The greatest length of a key. -/
def longestKey : Nat := 1024

/-- Whether a possible key can no longer be one. -/
def isStale (s : Scanner) (possible : PossibleKey) : Bool :=
  possible.mark.line != s.mark.line || longestKey < s.mark.index - possible.mark.index

/-- Forgets the possible keys that can no longer be keys; none when one of them had to be. -/
def dropStaleKeys? (s : Scanner) : Option Scanner :=
  if s.keys.any fun k => s.isStale k.2 && k.2.required then none
  else some { s with keys := s.keys.filter fun k => !s.isStale k.2 }

/-! ### Blocks -/

/-- Closes the blocks that are further right than a column, given the columns around. -/
def closeBlocks (column : Int) : Int → List Int → Int × List Int × List Token
  | indent, [] => (indent, [], [])
  | indent, next :: outer =>
    if column < indent then
      let (indent, outer, tokens) := closeBlocks column next outer
      (indent, outer, .blockEnd :: tokens)
    else (indent, next :: outer, [])

/-- Closes the blocks that are further right than a column. Between brackets there are none. -/
def unwind (s : Scanner) (column : Int) : Scanner :=
  if s.flow != 0 then s
  else
    let (indent, outer, tokens) := closeBlocks column s.indent s.outer
    { s with indent, outer, tokens := s.tokens ++ tokens }

/-- Opens a block at a column, unless it is there already. The token goes to a position. -/
def openBlock (s : Scanner) (column : Int) (position : Nat) (token : Token) : Scanner :=
  if s.indent < column then
    { s with
      indent := column
      outer := s.indent :: s.outer
      tokens := s.tokens.insertIdx position token }
  else s

/-! ### Single tokens -/

/-- Ends all blocks, as the end of the text and a document marker do. -/
def endBlocks? (s : Scanner) : Option Scanner := (s.unwind (-1)).dropKey?.map (·.allowKey false)

/-- Reads a directive, which takes a whole line. -/
def directive? (s : Scanner) : Option Scanner := do
  let s ← s.endBlocks?
  let (found, rest) ← Yaml.directive? s.rest
  pure ({ s with rest }.push (.directive found))

/-- Reads a document marker. -/
def documentMarker? (s : Scanner) (token : Token) : Option Scanner :=
  s.endBlocks?.map fun s => (s.skip 3).push token

/-- Reads an opening bracket. -/
def openFlow? (s : Scanner) (token : Token) : Option Scanner :=
  s.saveKey?.map fun s => ({ s with flow := s.flow + 1 }.allowKey true).skip 1 |>.push token

/-- Reads a closing bracket. -/
def closeFlow? (s : Scanner) (token : Token) : Option Scanner :=
  s.dropKey?.map fun s => ({ s with flow := s.flow - 1 }.allowKey false).skip 1 |>.push token

/-- Reads a comma. -/
def flowEntry? (s : Scanner) : Option Scanner :=
  (s.allowKey true).dropKey?.map fun s => (s.skip 1).push .flowEntry

/-- Reads the indicator of a sequence's item, or of a key, that opens its block. -/
def blockIndicator? (s : Scanner) (start token : Token) (keyNext : Bool) : Option Scanner :=
  if s.flow = 0 && !s.keyAllowed then none
  else
    let s := if s.flow = 0 then s.openBlock s.column s.tokens.length start else s
    (s.allowKey keyNext).dropKey?.map fun s => (s.skip 1).push token

/-- Reads the colon after a key, which becomes one by it. -/
def valueOfKey (s : Scanner) (found : PossibleKey) : Scanner :=
  let s := { s with
    keys := s.keys.filter fun k => k.1 != s.flow
    tokens := s.tokens.insertIdx found.position .key }
  let s :=
    if s.flow = 0 then s.openBlock found.mark.column found.position .blockMappingStart else s
  ((s.allowKey false).skip 1).push .value

/-- Reads a colon. -/
def value? (s : Scanner) : Option Scanner :=
  match s.keys.lookup s.flow with
  | some found => some (s.valueOfKey found)
  | none => s.blockIndicator? .blockMappingStart .value (s.flow = 0)

/-- Reads a name that may begin a key and that `read` finds. -/
def named? {α : Type} (s : Scanner) (read : List Mark → Option (α × List Mark))
    (token : α → Token) : Option Scanner := do
  let s ← s.saveKey?
  let (name, rest) ← read s.rest
  pure (({ s with rest }.allowKey false).push (token name))

/-- Reads a quoted scalar. -/
def quoted (s : Scanner) : Except Fault Scanner := do
  let s ← orMalformed s.saveKey?
  let (cs, rest) ← quotedScalar s.rest
  pure (({ s with rest }.allowKey false).push (.scalar (String.ofList cs) false))

/-- Reads a plain scalar. A line end after it allows a key again. -/
def plain? (s : Scanner) : Option Scanner :=
  s.saveKey?.map fun s =>
    let found := plainScalar (s.flow != 0) s.indent s.rest
    ({ s with rest := found.after }.allowKey found.endsLine).push
      (.scalar (String.ofList found.text) true)

/-- Reads a block scalar. -/
def block? (s : Scanner) : Option Scanner := do
  let s ← (s.allowKey true).dropKey?
  let (cs, rest) ← blockScalar? s.indent s.rest
  pure ({ s with rest }.push (.scalar (String.ofList cs) false))

/-! ### The next token -/

/-- Goes over spaces, comments and line ends; the flag says whether a line ended. -/
def skipToContent (inComment : Bool) : List Mark → Bool × List Mark
  | [] => (false, [])
  | m :: rest =>
    if isBreak m.char then (true, (skipToContent false rest).2)
    else if inComment then
      if m.char = endChar then (false, m :: rest) else skipToContent true rest
    else if m.char = ' ' then skipToContent false rest
    else if m.char = '#' then skipToContent true rest
    else (false, m :: rest)

/-- Goes to the next token, and closes the blocks that end before it. -/
def toContent? (s : Scanner) : Option Scanner :=
  let (lineEnded, rest) := skipToContent false s.rest
  let s := { s with rest, keyAllowed := s.keyAllowed || (lineEnded && s.flow = 0) }
  s.dropStaleKeys?.map fun s => s.unwind s.column

/-- The characters that no plain scalar begins with. -/
def indicators : List Char := "-?:,[]\x7b\x7d#&*!|>'\"%@`".toList

/-- Whether a plain scalar begins here. -/
def startsPlain (inFlow : Bool) (ms : List Mark) : Bool :=
  let c := firstChar ms
  (!isGap c && !indicators.contains c)
    || (!isGap (charAt ms 1) && (c = '-' || (!inFlow && (c = '?' || c = ':'))))

/-- Reads the token at a content that is no quoted scalar. -/
def unquoted? (s : Scanner) : Option Scanner :=
  let c := s.mark.char
  let gapNext := isGap (charAt s.rest 1)
  let atStart := s.column = 0
  if c = '%' && atStart then s.directive?
  else if atStart && isMarker '-' s.rest then s.documentMarker? .documentStart
  else if atStart && isMarker '.' s.rest then s.documentMarker? .documentEnd
  else if c = '[' then s.openFlow? .flowSequenceStart
  else if c = '{' then s.openFlow? .flowMappingStart
  else if c = ']' then s.closeFlow? .flowSequenceEnd
  else if c = '}' then s.closeFlow? .flowMappingEnd
  else if c = ',' then s.flowEntry?
  else if c = '-' && gapNext then s.blockIndicator? .blockSequenceStart .blockEntry true
  else if c = '?' && (s.flow != 0 || gapNext) then
    s.blockIndicator? .blockMappingStart .key (s.flow = 0)
  else if c = ':' && (s.flow != 0 || gapNext) then s.value?
  else if c = '*' then s.named? (fun ms => anchorName? (ms.drop 1)) .alias
  else if c = '&' then s.named? (fun ms => anchorName? (ms.drop 1)) .anchor
  else if c = '!' then s.named? tagName? .tag
  else if (c = '|' || c = '>') && s.flow = 0 then s.block?
  else if startsPlain (s.flow != 0) s.rest then s.plain?
  else none

/-- Reads the token at a content. -/
def token (s : Scanner) : Except Fault Scanner :=
  if s.mark.char = '\'' || s.mark.char = '"' then s.quoted else orMalformed s.unquoted?

/-- Reads the tokens to the end of the text; at most `bound` of them. -/
def run : Nat → Scanner → Except Fault (List Token)
  | 0, _ => .error .malformed
  | bound + 1, s =>
    match s.toContent? with
    | none => .error .malformed
    | some s =>
      if s.mark.char = endChar then
        orMalformed (s.endBlocks?.map fun s => s.tokens ++ [.streamEnd])
      else
        match s.token with
        | .ok s => run bound s
        | .error fault => .error fault

end Scanner

/-- The tokens of a text. A byte order mark at its start is left out. Every token takes at least one
character, so their number is bounded by the length of the text. -/
def scan (text : String) : Except Fault (List Token) :=
  match marks? text with
  | none => .error .malformed
  | some ms =>
    let ms := if firstChar ms = '\uFEFF' then ms.drop 1 else ms
    Scanner.run (ms.length + 1) { rest := ms }

end Token

end PackageLint.Yaml
